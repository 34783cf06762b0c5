/-!
What is wrong with a text that is no URL.
-/

namespace TenantRegistry.Web

inductive UrlProblem where
  /-- It has no scheme. -/
  | relative
  | emptyHost
  /-- The name of the host has no form in ASCII. -/
  | domainName
  /-- A character that no host may have. -/
  | hostCharacter
  | port
  | ipv4
  | ipv6
  deriving DecidableEq, Repr

def UrlProblem.message : UrlProblem → String
  | .relative => "relative URL without a base"
  | .emptyHost => "empty host"
  | .domainName => "invalid international domain name"
  | .hostCharacter => "invalid domain character"
  | .port => "invalid port number"
  | .ipv4 => "invalid IPv4 address"
  | .ipv6 => "invalid IPv6 address"

end TenantRegistry.Web
