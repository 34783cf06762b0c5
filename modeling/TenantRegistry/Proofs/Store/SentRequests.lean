import TenantRegistry.Proofs.Store.ScopedCommand
import TenantRegistry.Proofs.Store.ScopedQuery

/-!
What the stores outside the process send for a call, whatever they are answered.

`sent_for_calls`: a call is at most one request; its text is the same for all calls of a verb on
a kind, of as many rows where it is an SQL insert, so no data get into it; and its data are those
of the call, each in the place that the text names, under the tenant of the call.
-/

namespace TenantRegistry

variable {k : Kind}

/-- What notes all it is given, and answers as it likes. -/
def noting {α β : Type} (respond : List α → α → β) (request : α) : StateM (List α) β :=
  fun log => (respond log request, log ++ [request])

@[simp]
theorem run_noting {α β : Type} (respond : List α → α → β) (request : α) (log : List α) :
    (noting respond request).run log = (respond log request, log ++ [request]) := rfl

namespace Sql

/-- The commands that a call sends. -/
def sent (respond : List Command → Command → Outcome) (c : Call k) : List Command :=
  ((store (noting respond) k c).run []).2

theorem sent_eq (respond : List Command → Command → Outcome) (c : Call k) :
    sent respond c = if isIdle c then [] else [.ofCall c] := by
  unfold sent store
  split <;> rfl

/-- A command carries a call. -/
def Carries (command : Command) : Call k → Prop
  | .insert tenant rows => ScopedInsert tenant rows command
  | c => Scoped c command

theorem carries_ofCall (c : Call k) : Carries (.ofCall c) c := by
  cases c with
  | insert tenant rows => exact scopedInsert_ofCall tenant rows
  | list | get | update | delete => exact scoped_ofCall nofun

theorem isIdle_eq (c : Call k) :
    isIdle c = (decide (c.verb = .insert) && decide (rowCount c = 0)) := by
  cases c with
  | insert tenant rows => cases rows <;> rfl
  | list | get | update | delete => rfl

theorem texts_sent (respond respond' : List Command → Command → Outcome) {c c' : Call k}
    (hverb : c.verb = c'.verb) (hcount : rowCount c = rowCount c') :
    (sent respond c).map (·.statement.text) = (sent respond' c').map (·.statement.text) := by
  rw [sent_eq, sent_eq, isIdle_eq, isIdle_eq, hverb, hcount]
  split
  · rfl
  · simp only [List.map_cons, List.map_nil, Command.ofCall, hverb, hcount]

end Sql

namespace Graphql

/-- The queries that a call sends to an endpoint. -/
def sent (e : Endpoint) (respond : List Query → Query → Option Reply) (c : Call k) : List Query :=
  ((store e (noting respond) k c).run []).2

theorem sent_eq (e : Endpoint) (respond : List Query → Query → Option Reply) (c : Call k) :
    sent e respond c = if e.problem?.isSome then [] else [.ofCall c] := by
  unfold sent store
  cases e.problem? with
  | some problem => rfl
  | none => cases hanswer : respond [] (.ofCall c) <;> simp [hanswer] <;> rfl

/-- A query carries a call. -/
def Carries (query : Query) : Call k → Prop
  | .insert tenant rows => ScopedInsert tenant rows query
  | c => Scoped c query

theorem carries_ofCall (c : Call k) : Carries (.ofCall c) c := by
  cases c with
  | insert tenant rows => exact scopedInsert_ofCall tenant rows
  | list | get | update | delete => exact scoped_ofCall nofun

theorem texts_sent (e : Endpoint) (respond respond' : List Query → Query → Option Reply)
    {c c' : Call k} (hverb : c.verb = c'.verb) :
    (sent e respond c).map (·.text) = (sent e respond' c').map (·.text) := by
  rw [sent_eq, sent_eq]
  split
  · rfl
  · simp only [List.map_cons, List.map_nil, Query.ofCall, hverb]

end Graphql

/-- A call of either store outside the process sends one request that carries it, or none if it
is an insert of no rows into a database or no request can be made of the endpoint. The texts of
what is sent for two calls of one verb are the same, of as many rows in an SQL insert, whatever
strings the calls hold and whatever they are answered. -/
theorem sent_for_calls (k : Kind) :
    (∀ (respond : List Sql.Command → Sql.Command → Sql.Outcome) (c : Call k),
      ∃ command, Sql.Carries command c ∧
        Sql.sent respond c = if Sql.isIdle c then [] else [command]) ∧
    (∀ (respond respond' : List Sql.Command → Sql.Command → Sql.Outcome) (c c' : Call k),
      c.verb = c'.verb → Sql.rowCount c = Sql.rowCount c' →
        (Sql.sent respond c).map (·.statement.text) =
          (Sql.sent respond' c').map (·.statement.text)) ∧
    (∀ (e : Graphql.Endpoint) (respond : List Graphql.Query → Graphql.Query → Option Graphql.Reply)
      (c : Call k), ∃ query, Graphql.Carries query c ∧
        Graphql.sent e respond c = if e.problem?.isSome then [] else [query]) ∧
    (∀ (e : Graphql.Endpoint)
      (respond respond' : List Graphql.Query → Graphql.Query → Option Graphql.Reply)
      (c c' : Call k), c.verb = c'.verb →
        (Graphql.sent e respond c).map (·.text) = (Graphql.sent e respond' c').map (·.text)) :=
  ⟨fun respond c => ⟨.ofCall c, Sql.carries_ofCall c, Sql.sent_eq respond c⟩,
    fun respond respond' _ _ => Sql.texts_sent respond respond',
    fun e respond c => ⟨.ofCall c, Graphql.carries_ofCall c, Graphql.sent_eq e respond c⟩,
    fun e respond respond' _ _ => Graphql.texts_sent e respond respond'⟩

/-- A string that closes a quote and starts a statement of its own. -/
def hostile : String := "'; DROP TABLE exporter; --"

/-- Rows of two exporters that are made of a string. -/
def twoExporters (s : String) : List (Insert .exporter) :=
  [⟨s, s, .exporter (some s) s, ⟨0, 0⟩, ⟨0, 0⟩⟩, ⟨s ++ s, s, .exporter none s, ⟨0, 0⟩, ⟨0, 0⟩⟩]

def localEndpoint : Graphql.Endpoint :=
  ⟨⟨"http".toList, none, .segments [], none, none⟩, "secret"⟩

theorem sent_for_calls_hostile :
    (Sql.sent (fun _ _ => .ok []) (.insert hostile (twoExporters hostile))).map
        (·.statement.text) =
      (Sql.sent (fun _ _ => .ok []) (.insert "a" (twoExporters "b"))).map (·.statement.text) ∧
    (Sql.sent (fun _ _ => .ok []) (.insert hostile (twoExporters hostile))).map
        (·.parameters[7]?) = [some (.text hostile)] ∧
    (Graphql.sent localEndpoint (fun _ _ => none)
        (.delete hostile hostile : Call .credential)).map (·.text) =
      (Graphql.sent localEndpoint (fun _ _ => none)
        (.delete "a" "b" : Call .credential)).map (·.text) :=
  ⟨(sent_for_calls .exporter).2.1 _ _ _ _ rfl rfl, rfl,
    (sent_for_calls .credential).2.2.2 _ _ _ _ _ rfl⟩

end TenantRegistry
