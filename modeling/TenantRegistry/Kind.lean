/-!
The two kinds of resources that a tenant registers.
-/

namespace TenantRegistry

inductive Kind where
  | credential
  | exporter
  deriving DecidableEq, Repr

namespace Kind

def name : Kind → String
  | .credential => "credential"
  | .exporter => "exporter"

def plural (k : Kind) : String :=
  k.name ++ "s"

end Kind
end TenantRegistry
