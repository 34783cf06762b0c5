/-!
Counters of requests: how many there were of each kind and method, and how many of them were
answered with an error.
-/

namespace TenantRegistry.Web

/-- Counts of things, each thing once. -/
abbrev Tally (α : Type) : Type :=
  List (α × Nat)

namespace Tally

variable {α : Type} [DecidableEq α]

/-- How often a thing was counted. -/
def get (t : Tally α) (a : α) : Nat :=
  ((t.find? (·.1 = a)).map (·.2)).getD 0

/-- Counts a thing once more. -/
def bump (a : α) : Tally α → Tally α
  | [] => [(a, 1)]
  | (b, n) :: rest => if b = a then (b, n + 1) :: rest else (b, n) :: bump a rest

theorem get_bump (t : Tally α) (a b : α) :
    (bump a t).get b = t.get b + if a = b then 1 else 0 := by
  induction t with
  | nil => by_cases h : a = b <;> simp [bump, get, h]
  | cons p rest ih =>
    obtain ⟨c, n⟩ := p
    simp only [get] at ih
    by_cases hc : c = a
    · subst hc
      by_cases hb : c = b <;> simp [bump, get, hb]
    · by_cases hb : c = b
      · subst hb
        simp [bump, get, hc, Ne.symm hc]
      · simp [bump, get, hc, hb, ih]

end Tally

/-- What a request is counted under. -/
structure RequestLabels where
  kind : String
  method : String
  deriving DecidableEq, Repr

/-- What a request answered with an error is counted under besides. -/
structure ErrorLabels where
  request : RequestLabels
  status : Nat
  deriving DecidableEq, Repr

structure Metrics where
  requests : Tally RequestLabels
  errors : Tally ErrorLabels
  deriving DecidableEq, Repr

namespace Metrics

def empty : Metrics := ⟨[], []⟩

/-- A status that says that the client or the server is at fault. -/
def isError (status : Nat) : Bool :=
  400 ≤ status && status < 600

/-- Counts a request that was answered with a status. -/
def count (m : Metrics) (labels : RequestLabels) (status : Nat) : Metrics where
  requests := m.requests.bump labels
  errors := if isError status then m.errors.bump ⟨labels, status⟩ else m.errors

def requestsName : String := "tenant_config_requests_total"

def errorsName : String := "tenant_config_errors_total"

/-- A label with its value. -/
def labelText (name value : String) : String :=
  name ++ "=\"" ++ value ++ "\""

/-- The line of a counter. -/
def sample (name : String) (labels : List (String × String)) (n : Nat) : String :=
  name ++ "\x7b" ++ ",".intercalate (labels.map fun (l, v) => labelText l v) ++ "\x7d " ++ toString n

def RequestLabels.pairs (l : RequestLabels) : List (String × String) :=
  [("kind", l.kind), ("method", l.method)]

def ErrorLabels.pairs (l : ErrorLabels) : List (String × String) :=
  RequestLabels.pairs l.request ++ [("status", toString l.status)]

/-- The lines of a counter with what they count, if it has counted anything. -/
def family (name help : String) (samples : List String) : List String :=
  if samples.isEmpty then []
  else ("# HELP " ++ name ++ " " ++ help) :: ("# TYPE " ++ name ++ " counter") :: samples

def lines (m : Metrics) : List String :=
  family requestsName "API requests by resource kind and method"
      (m.requests.map fun (l, n) => sample requestsName (RequestLabels.pairs l) n) ++
    family errorsName "API requests answered with an error status"
      (m.errors.map fun (l, n) => sample errorsName (ErrorLabels.pairs l) n)

/-- The text of all counters. -/
def text (m : Metrics) : String :=
  String.join (m.lines.map (· ++ "\n"))

end Metrics
end TenantRegistry.Web
