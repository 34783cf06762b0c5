import TenantRegistry.Proofs.Service.Script
import TenantRegistry.Proofs.Store.Answers

/-!
What is stored and what is called, without the secrets.

`redacted` replaces the values of credentials by the empty text: in rows, in calls and in all calls
of a dialogue. The memory store answers a call as it answers the redacted one on the redacted
table (`answer_redacted`), since rows are found by their keys and read back without their values.
-/

namespace TenantRegistry

variable {k : Kind}

/-! ## Calls -/

def Payload.redacted : {k : Kind} → Payload k → Payload k
  | _, .credential _ => .credential ""
  | _, .exporter reference config => .exporter reference config

theorem Payload.view_redacted (p : Payload k) : p.redacted.view = p.view := by
  cases p <;> rfl

def Insert.redacted (i : Insert k) : Insert k :=
  { i with payload := i.payload.redacted }

def Update.redacted (u : Update k) : Update k :=
  { u with payload := u.payload.redacted }

def Plan.redacted (p : Plan k) : Plan k :=
  ⟨p.inserts.map (·.redacted), p.updates.map (·.redacted)⟩

namespace Call

def redacted : Call k → Call k
  | .list tenant => .list tenant
  | .get tenant name => .get tenant name
  | .insert tenant rows => .insert tenant (rows.map (·.redacted))
  | .update tenant u => .update tenant u.redacted
  | .delete tenant name => .delete tenant name

/-- What the redacted call is answered is an answer to the call. -/
def readBack : (c : Call k) → c.redacted.Answer → c.Answer
  | .list _, r => r
  | .get .., r => r
  | .insert .., r => r
  | .update .., r => r
  | .delete .., r => r

theorem action_redacted (c : Call k) : c.redacted.action = c.action := by
  cases c with
  | insert tenant rows => simp only [redacted, action, List.length_map]
  | _ => rfl

end Call

/-! ## Dialogues -/

/-- The dialogue with its calls redacted. -/
def Dialogue.redacted {α : Type} : Dialogue k α → Dialogue k α
  | .done a => .done a
  | .ask c next => .ask c.redacted fun r => (next (c.readBack r)).redacted

theorem Service.redacted_follow {α : Type} (a : α) (calls : List (Call k)) :
    (follow a calls).redacted = follow a (calls.map (·.redacted)) := by
  induction calls with
  | nil => rfl
  | cons c rest ih =>
    refine congrArg (Dialogue.ask c.redacted) (funext fun r => ?_)
    rw [← ih, c.action_redacted]
    cases c <;> cases r <;> rfl

theorem Service.map_redacted_script (tenant : String) (p : Plan k) :
    (script tenant p).map (·.redacted) = script tenant p.redacted := by
  unfold script Plan.redacted
  rw [List.map_append, List.map_map, List.map_map, List.isEmpty_map]
  split <;> rfl

theorem Service.summary_redacted (p : Plan k) : summary p.redacted = summary p := by
  simp only [summary, Plan.redacted, List.map_map]
  rfl

/-! ## Tables -/

namespace Memory

def Stored.redacted (s : Stored k) : Stored k :=
  { s with payload := s.payload.redacted }

theorem Stored.row_redacted (s : Stored k) : s.redacted.row = s.row := by
  unfold Stored.row Stored.redacted
  rw [Payload.view_redacted]

namespace Table

def redacted (t : Table k) : Table k :=
  t.map fun e => (e.1, e.2.redacted)

theorem redacted_cons (e : Key × Stored k) (t : Table k) :
    redacted (e :: t) = (e.1, e.2.redacted) :: redacted t := rfl

theorem find?_redacted (t : Table k) (key : Key) :
    t.redacted.find? key = (t.find? key).map (·.redacted) := by
  induction t with
  | nil => rfl
  | cons e rest ih =>
    rw [redacted_cons, find?_cons, find?_cons, ih]
    split <;> rfl

theorem redacted_put (t : Table k) (key : Key) (row : Stored k) :
    (t.put key row).redacted = t.redacted.put key row.redacted := by
  induction t with
  | nil => rfl
  | cons e rest ih =>
    rw [redacted_cons]
    simp only [put]
    split
    · rfl
    · split
      · rfl
      · rw [← ih]; rfl

theorem redacted_remove (t : Table k) (key : Key) :
    (t.remove key).redacted = t.redacted.remove key := by
  unfold redacted remove
  rw [List.filter_map]
  rfl

end Table

theorem rowsOf_redacted (t : Table k) (tenant : String) :
    rowsOf t.redacted tenant = rowsOf t tenant := by
  unfold rowsOf Table.redacted
  rw [List.filter_map, List.map_map]
  exact List.map_congr_left fun e _ => Stored.row_redacted e.2

theorem firstTaken_redacted (t : Table k) (tenant : String) (seen names : List String) :
    firstTaken t.redacted tenant seen names = firstTaken t tenant seen names := by
  induction names generalizing seen with
  | nil => rfl
  | cons name rest ih => simp only [firstTaken, Table.find?_redacted, Option.isSome_map, ih]

theorem redacted_putAll (tenant : String) (rows : List (Insert k)) (t : Table k) :
    (putAll tenant rows t).redacted = putAll tenant (rows.map (·.redacted)) t.redacted := by
  induction rows generalizing t with
  | nil => rfl
  | cons i rest ih =>
    rw [List.map_cons, putAll_cons, putAll_cons, ih, Table.redacted_put]
    rfl

/-- The store answers a call as it answers the redacted one on what is left without secrets. -/
theorem answer_redacted (t : Table k) (c : Call k) :
    c.readBack (answer t.redacted c.redacted).1 = (answer t c).1 ∧
      (answer t.redacted c.redacted).2 = (answer t c).2.redacted := by
  have hrow (s : Option (Stored k)) : (s.map (·.redacted)).map (·.row) = s.map (·.row) := by
    rw [Option.map_map]
    exact congrArg (s.map ·) (funext Stored.row_redacted)
  cases c with
  | list tenant =>
    exact ⟨congrArg Except.ok (rowsOf_redacted t tenant), rfl⟩
  | get tenant name =>
    refine ⟨congrArg Except.ok ?_, rfl⟩
    rw [Table.find?_redacted, hrow]
  | insert tenant rows =>
    have hnames : (rows.map (·.redacted)).map (·.name) = rows.map (·.name) := List.map_map
    simp only [Call.redacted, Call.readBack, answer, hnames, firstTaken_redacted]
    split
    · exact ⟨rfl, rfl⟩
    · exact ⟨rfl, (redacted_putAll tenant rows t).symm⟩
  | update tenant u =>
    have hname : u.redacted.name = u.name := rfl
    simp only [Call.redacted, Call.readBack, answer, hname, Table.find?_redacted]
    cases t.find? ⟨tenant, u.name⟩ with
    | none => exact ⟨rfl, rfl⟩
    | some s => exact ⟨rfl, (Table.redacted_put t _ (s.updated u)).symm⟩
  | delete tenant name =>
    refine ⟨congrArg Except.ok ?_, (Table.redacted_remove t _).symm⟩
    rw [Table.find?_redacted, hrow]

namespace State

def redacted (s : State) : State :=
  ⟨s.credentials.redacted, s.exporters.redacted⟩

theorem table_redacted (s : State) : s.redacted.table k = (s.table k).redacted := by
  cases k <;> rfl

theorem redacted_withTable (s : State) (t : Table k) :
    (s.withTable t).redacted = s.redacted.withTable t.redacted := by
  cases k <;> rfl

end State

theorem store_redacted (s : State) (c : Call k) :
    c.readBack (store k c.redacted s.redacted).1 = (store k c s).1 ∧
      (store k c.redacted s.redacted).2 = (store k c s).2.redacted := by
  obtain ⟨hanswer, htable⟩ := answer_redacted (s.table k) c
  rw [store_apply, store_apply, State.table_redacted, State.redacted_withTable]
  exact ⟨hanswer, congrArg s.redacted.withTable htable⟩

end Memory
end TenantRegistry
