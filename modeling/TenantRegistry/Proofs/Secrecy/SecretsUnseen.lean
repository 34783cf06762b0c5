import TenantRegistry.Proofs.Concurrency.ValueAndType
import TenantRegistry.Proofs.Secrecy.AlikeRecords

/-!
Clients never see anything of a secret.

The shadow of a system is what is left of it without secrets: stored rows and calls are redacted,
and operations end with what a client reads. A shadow takes its steps by itself (`shadow_step`), so
no secret has a say in them. Operations that differ in secrets only have the same shadow, and so
they end the same, however they interleave: see `secrets_unseen`.
-/

namespace TenantRegistry

/-- What an operation ends with, as a client reads it. -/
inductive Outcome where
  | rows {k : Kind} (rows : List (Row k))
  | row {k : Kind} (row : Row k)
  | summary (names : Summary)
  | failure (e : RequestError)

def Action.outcome : {k : Kind} → (a : Action k) → Except RequestError a.Result → Outcome
  | _, _, .error e => .failure e
  | _, .list, .ok rows => .rows rows
  | _, .get _, .ok row => .row row
  | _, .delete _, .ok row => .row row
  | _, .write .., .ok names => .summary names

theorem Action.outcome_write {k : Kind} (body body' : String) (clock : Timestamp)
    (maxDepth : Nat) :
    ((write body clock maxDepth : Action k).outcome : Except RequestError Summary → Outcome) =
      (write body' clock maxDepth : Action k).outcome := by
  funext r
  cases r <;> rfl

/-- Operations that differ in nothing but the secrets of what they write. -/
inductive Operation.Alike : Operation → Operation → Prop
  | same (op : Operation) : Operation.Alike op op
  | write {k : Kind} {tenant body body' : String} {clock : Timestamp} {maxDepth : Nat} :
      List.Forall₂ AlikeReads (decodeBatch k body) (decodeBatch k body') →
      Operation.Alike ⟨k, tenant, .write body clock maxDepth⟩
        ⟨k, tenant, .write body' clock maxDepth⟩

namespace Memory

variable {k : Kind}

/-- What a task has ended with, if it has. -/
def Task.outcome? (t : Task) : Option Outcome :=
  match t.rest with
  | .done r => some (t.op.action.outcome r)
  | .ask .. => none

/-! ## Shadows -/

/-- A store and dialogues with it. -/
structure Shadow where
  state : State
  tasks : List ((k : Kind) × Dialogue k Outcome)

/-- The shadow after the next call of task `i`, if it has one. -/
def Shadow.step (x : Shadow) (i : Nat) : Shadow :=
  match x.tasks[i]? with
  | some ⟨k, .ask c next⟩ =>
    ⟨(store k c x.state).2, x.tasks.set i ⟨k, next (store k c x.state).1⟩⟩
  | _ => x

/-- What the dialogues have ended with. -/
def Shadow.outcomes (x : Shadow) : List (Option Outcome) :=
  x.tasks.map fun
    | ⟨_, .done o⟩ => some o
    | ⟨_, .ask ..⟩ => none

/-- What is left of a task without secrets. -/
def Task.shadow (t : Task) : (k : Kind) × Dialogue k Outcome :=
  ⟨t.op.kind, t.rest.redacted.bind fun r => .done (t.op.action.outcome r)⟩

def System.shadow (y : System) : Shadow :=
  ⟨y.state.redacted, y.tasks.map Task.shadow⟩

namespace System

theorem outcomes_shadow (y : System) : y.shadow.outcomes = y.tasks.map Task.outcome? := by
  simp only [Shadow.outcomes, shadow, List.map_map]
  refine List.map_congr_left fun t _ => ?_
  obtain ⟨op, rest, log⟩ := t
  cases rest <;> rfl

/-- The shadow steps by itself. -/
theorem shadow_step (y : System) (i : Nat) : (y.step i).shadow = y.shadow.step i := by
  have hget : y.shadow.tasks[i]? = y.tasks[i]?.map Task.shadow := List.getElem?_map
  unfold Shadow.step
  rw [hget]
  cases htask : y.tasks[i]? with
  | none => rw [step_of_none htask]; rfl
  | some t =>
    obtain ⟨op, rest, log⟩ := t
    cases rest with
    | done r => rw [step_of_done htask]; rfl
    | ask c next =>
      obtain ⟨hanswer, hstate⟩ := store_redacted y.state c
      rw [step_of_ask htask]
      -- The shadow makes the redacted call and goes on with what is read back of its answer.
      change _ = Shadow.mk (store op.kind c.redacted y.state.redacted).2
        ((y.tasks.map Task.shadow).set i ⟨op.kind,
          (next (c.readBack (store op.kind c.redacted y.state.redacted).1)).redacted.bind
            fun r => .done (op.action.outcome r)⟩)
      rw [hanswer, hstate]
      exact congrArg (Shadow.mk _) List.map_set

theorem shadow_run (y : System) (schedule : List Nat) :
    (y.run schedule).shadow = schedule.foldl Shadow.step y.shadow := by
  induction schedule using List.reverseRecOn with
  | nil => rfl
  | append_singleton schedule i ih =>
    rw [run_snoc, shadow_step, ih, List.foldl_append]
    rfl

end System
end Memory

/-! ## Writes -/

/-- What a write does once it knows what is stored, without secrets. -/
theorem Service.redacted_written (tenant : String) (ctx : BatchContext)
    (records : List (Except RequestError (Submission k))) (stored : List (Row k)) :
    (written tenant ctx records stored).redacted =
      match (reconcile (typeIn stored) ctx records).map (·.redacted) with
      | .ok p => follow (summary p) (script tenant p)
      | .error e => .done (.error e) := by
  unfold written
  cases reconcile (typeIn stored) ctx records with
  | error e => rfl
  | ok p =>
    simp only [Except.map, summary_redacted, ← map_redacted_script]
    exact redacted_follow (summary p) (script tenant p)

theorem Service.redacted_written_congr
    {records records' : List (Except RequestError (Submission k))}
    (h : List.Forall₂ AlikeReads records records') (tenant : String) (ctx : BatchContext)
    (stored : List (Row k)) :
    (written tenant ctx records stored).redacted =
      (written tenant ctx records' stored).redacted := by
  rw [redacted_written, redacted_written, map_redacted_reconcile h]

theorem Service.redacted_write {body body' : String}
    (h : List.Forall₂ AlikeReads (decodeBatch k body) (decodeBatch k body')) (tenant : String)
    (ctx : BatchContext) :
    (Service.write (k := k) tenant body ctx).run.redacted =
      (Service.write (k := k) tenant body' ctx).run.redacted := by
  rw [write_run, write_run]
  refine congrArg (Dialogue.ask (.list tenant)) (funext fun r => ?_)
  cases r with
  | error e => rfl
  | ok rows => exact redacted_written_congr h tenant ctx rows

theorem Operation.Alike.shadow_start {op op' : Operation} (h : op.Alike op') :
    (Memory.Task.start op).shadow = (Memory.Task.start op').shadow := by
  cases h with
  | same => rfl
  | @write k tenant body body' clock maxDepth h =>
    have hwrite := Service.redacted_write h tenant ⟨.ofClock clock, maxDepth⟩
    exact congrArg₂ (fun (d : Dialogue k (Except RequestError Summary)) f =>
      (⟨k, d.bind fun r => .done (f r)⟩ : (k : Kind) × Dialogue k Outcome)) hwrite
      (Action.outcome_write body body' clock maxDepth)

namespace Memory.System

/-- Operations that differ in secrets only end the same, however they interleave: with the same
rows, the same names written, or the same failure. So what is shown of these is the same, and so are
the message and the status of a failure. -/
theorem secrets_unseen {ops ops' : List Operation} (h : List.Forall₂ Operation.Alike ops ops')
    (schedule : List Nat) :
    ((start ops).run schedule).tasks.map Task.outcome? =
      ((start ops').run schedule).tasks.map Task.outcome? := by
  have hstart : (start ops).shadow = (start ops').shadow := by
    refine congrArg (Shadow.mk _) ?_
    simp only [start, List.map_map]
    induction h with
    | nil => rfl
    | cons hfirst _ ih => exact congrArg₂ List.cons hfirst.shadow_start ih
  have hrun : ((start ops).run schedule).shadow = ((start ops').run schedule).shadow := by
    rw [shadow_run, shadow_run, hstart]
  rw [← outcomes_shadow, ← outcomes_shadow, hrun]

/-! ## Two keys -/

/-- The `aws-key` with other secrets. -/
def otherKeyBody : String :=
  "name: c\ntype: aws-key\nvalue: \x7b'AWS_ACCESS_KEY_ID': 'j', 'AWS_SECRET_ACCESS_KEY': 't'\x7d"

def otherKeyDocument : Yaml.Document where
  root := .mapping ⟨⟨0, 0, 0⟩, none, none⟩
    [(scalarAt 0 0 0 .plain "name", scalarAt 6 0 6 .plain "c"),
      (scalarAt 8 1 0 .plain "type", scalarAt 14 1 6 .plain "aws-key"),
      (scalarAt 22 2 0 .plain "value", .mapping ⟨⟨29, 2, 7⟩, none, none⟩
        [(scalarAt 30 2 8 .singleQuoted "AWS_ACCESS_KEY_ID", scalarAt 51 2 29 .singleQuoted "j"),
          (scalarAt 56 2 34 .singleQuoted "AWS_SECRET_ACCESS_KEY",
            scalarAt 81 2 59 .singleQuoted "t")])]
  size := 13
  faulty := false

set_option maxRecDepth 100000 in
theorem ofText_otherKeyBody : Yaml.Document.ofText otherKeyBody = [otherKeyDocument] := by
  cbv

theorem decodeBatch_otherKeyBody : decodeBatch .credential otherKeyBody =
    [.ok ⟨"c", "aws-key", .credential (.mapping [(.string "AWS_ACCESS_KEY_ID", .string "j"),
      (.string "AWS_SECRET_ACCESS_KEY", .string "t")])⟩] := by
  have hread : Submission.ofDocument .credential otherKeyDocument =
      .ok (some ⟨"c", "aws-key", .credential (.mapping
        [(.string "AWS_ACCESS_KEY_ID", .string "j"),
          (.string "AWS_SECRET_ACCESS_KEY", .string "t")])⟩) := rfl
  simp only [decodeBatch, ofText_otherKeyBody, recordsOf, hread]

/-- A key is written and read. -/
def writeAndGet (body : String) : List Operation :=
  [⟨.credential, "t", .write body ⟨10, 0⟩ 8⟩, ⟨.credential, "t", .get "c"⟩]

theorem alike_keys :
    List.Forall₂ Operation.Alike (writeAndGet awsKeyBody) (writeAndGet otherKeyBody) := by
  refine .cons (.write ?_) (.cons (.same _) .nil)
  rw [decodeBatch_awsKeyBody, decodeBatch_otherKeyBody]
  refine .cons (.ok ⟨rfl, rfl, .credential (.of_entries ?_)⟩) .nil
  exact .cons ⟨rfl, .strings "i" "j"⟩ (.cons ⟨rfl, .strings "s" "t"⟩ .nil)

/-- Two keys that differ in both fields are written and read the same. -/
theorem secrets_unseen_two_keys :
    List.Forall₂ Operation.Alike (writeAndGet awsKeyBody) (writeAndGet otherKeyBody) ∧
    ((start (writeAndGet awsKeyBody)).run [0, 0, 1]).tasks.map Task.outcome? =
      ((start (writeAndGet otherKeyBody)).run [0, 0, 1]).tasks.map Task.outcome? :=
  ⟨alike_keys, secrets_unseen alike_keys [0, 0, 1]⟩

end Memory.System
end TenantRegistry
