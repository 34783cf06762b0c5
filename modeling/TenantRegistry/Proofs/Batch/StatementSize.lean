import TenantRegistry.Proofs.Batch.Planned
import TenantRegistry.Proofs.Record.FlowRecords
import TenantRegistry.Proofs.Store.DatabaseTable
import TenantRegistry.Proofs.Text.Utf8ReadBack
import TenantRegistry.Settings
import TenantRegistry.Web.App

/-!
How large the statement is that inserts the new records of a batch.

All new records of a batch go into one statement, which binds one parameter for each of their
cells, so that it can be sent exactly if there are not too many of them: `insert_fits_iff`.
Nothing else bounds them. A body is bounded by its octets, and `numbersBody` is a body of short
records that is small enough for a request and holds too many: `numbersBody_overflows`.
-/

namespace TenantRegistry

open Sql (Command)
open Yaml (recordsText)

variable {k : Kind} {stored : String → Option String} {ctx : BatchContext}

/-! ## Many short records -/

/-- The row of an empty exporter. -/
def emptyLokiInsert (ctx : BatchContext) (name : String) : Insert .exporter :=
  ⟨name, "loki", .exporter none "\x7b\x7d", ctx.now, ctx.now⟩

theorem toInsert_emptyLoki {name : String} (hname : name ≠ "") (hdepth : 0 < ctx.maxDepth) :
    (emptyLoki name).toInsert ctx = .ok (emptyLokiInsert ctx name) := by
  have hconfig : Exporter.encode name ctx.maxDepth (.mapping []) = .ok "\x7b\x7d" := by
    simp only [Exporter.encode, Yaml.Tree.untagged, Yaml.Tree.normalize, Yaml.Tree.normalizeAt,
      if_neg (Nat.not_le.mpr hdepth)]
    rfl
  refine Submission.toInsert_of_payload hname (by simp [emptyLoki]) ?_
  simp only [emptyLoki, Content.payload, hconfig]
  rfl

theorem planned_emptyLoki {names : List String} (hnames : ∀ name ∈ names, name ≠ "")
    (hdepth : 0 < ctx.maxDepth) :
    Planned (fun _ => none) ctx (names.map emptyLoki) (names.map (emptyLokiInsert ctx)) [] := by
  induction names with
  | nil => exact .nil
  | cons name names ih =>
    obtain ⟨hname, hnames⟩ := List.forall_mem_cons.mp hnames
    exact .insert rfl (toInsert_emptyLoki hname hdepth) (ih hnames)

/-- Names that are numbers. -/
def numbers (n : Nat) : List (List Char) :=
  (List.range n).map (Nat.toDigits 10)

/-- A body with an empty exporter for each of `n` numbers. -/
def numbersBody (n : Nat) : String :=
  String.ofList (recordsText (numbers n))

/-- The plan for such a body if no number is stored. -/
def numbersPlan (ctx : BatchContext) (n : Nat) : Plan .exporter :=
  ⟨((numbers n).map String.ofList).map (emptyLokiInsert ctx), []⟩

theorem length_numbers (n : Nat) : (numbers n).length = n := by
  rw [numbers, List.length_map, List.length_range]

theorem isAlphanum_of_mem_numbers {n : Nat} :
    ∀ name ∈ numbers n, name.all Char.isAlphanum = true := by
  intro name hname
  obtain ⟨i, -, rfl⟩ := List.mem_map.mp hname
  refine List.all_eq_true.mpr fun c hc => ?_
  rw [Char.isAlphanum, Nat.isDigit_of_mem_toDigits (by decide) (by decide) hc, Bool.or_true]

theorem nodup_numbers (n : Nat) : ((numbers n).map String.ofList).Nodup := by
  rw [numbers, List.map_map]
  refine List.nodup_range.map fun i j h => ?_
  have hread := congrArg (Nat.ofDigitChars 10 · 0) (String.ofList_injective h)
  simpa [Nat.ofDigitChars_ten_toDigits] using hread

theorem reconcile_numbersBody (ctx : BatchContext) {n : Nat} (hn : 0 < n)
    (hdepth : 0 < ctx.maxDepth) :
    reconcile (fun _ => none) ctx (decodeBatch .exporter (numbersBody n)) =
      .ok (numbersPlan ctx n) := by
  have hne : numbers n ≠ [] := List.ne_nil_of_length_pos (by rwa [length_numbers])
  have hnames : ∀ name ∈ (numbers n).map String.ofList, name ≠ "" := by
    simp [numbers, String.ofList_eq_empty_iff, Nat.toDigits_ne_nil]
  rw [numbersBody, decodeBatch_recordsText hne isAlphanum_of_mem_numbers]
  refine reconcile_eq_ok_iff.mpr ⟨((numbers n).map String.ofList).map emptyLoki, ?_, ?_,
    planned_emptyLoki hnames hdepth⟩
  · simp only [List.map_map]
    rfl
  · simpa using hne

theorem names_numbersPlan (ctx : BatchContext) (n : Nat) :
    (numbersPlan ctx n).inserts.map (·.name) = (numbers n).map String.ofList := by
  simp only [numbersPlan, List.map_map]
  rfl

theorem length_numbersPlan (ctx : BatchContext) (n : Nat) :
    (numbersPlan ctx n).inserts.length = n := by
  rw [numbersPlan, List.length_map, List.length_map, length_numbers]

/-- The numbers below `n` having at most `e` digits, so much fits into a request. -/
theorem bodyText_numbersBody {limits : Web.Limits} {n e : Nat} (he : 0 < e) (hn : n ≤ 10 ^ e)
    (hsize : (e + 42) * n ≤ limits.maxBody) :
    Web.App.bodyText limits (Utf8.ofString (numbersBody n)) = .ok (numbersBody n) := by
  have hascii : ∀ c ∈ recordsText (numbers n), c.toNat < 0x80 := fun c hc =>
    toNat_lt_of_isPlainChar (isPlainChar_of_mem_recordsText isAlphanum_of_mem_numbers c hc)
  have hdigits : ∀ length ∈ (numbers n).map List.length, length ≤ e := by
    simp only [numbers, List.map_map, List.mem_map, List.mem_range, Function.comp_apply]
    rintro _ ⟨i, hi, rfl⟩
    exact (Nat.length_toDigits_le_iff (by decide) he).mpr (by omega)
  have hsum : (numbers n).flatten.length ≤ n * e := by
    rw [List.length_flatten]
    simpa [length_numbers] using List.sum_le_card_nsmul _ _ hdigits
  have hlength : (recordsText (numbers n)).length ≤ limits.maxBody := by
    calc (recordsText (numbers n)).length
        = (numbers n).flatten.length + 42 * n := by
          rw [length_recordsText, length_numbers]
      _ ≤ n * e + 42 * n := Nat.add_le_add_right hsum _
      _ = (e + 42) * n := by rw [Nat.add_mul, Nat.mul_comm n e]
      _ ≤ limits.maxBody := hsize
  have hoctets : Utf8.ofString (numbersBody n) = Utf8.encode (recordsText (numbers n)) := by
    rw [Utf8.ofString, numbersBody, String.toList_ofList]
  have hcount : (Utf8.encode (recordsText (numbers n))).length =
      (recordsText (numbers n)).length := by
    rw [Utf8.encode_of_lt hascii, List.length_map]
  rw [Web.App.bodyText, hoctets, if_neg (by omega), Utf8.decode_encode]
  rfl

/-! ## The statement -/

/-- The most parameters that a statement can bind: their number is sent in 16 bits. -/
def maxParameters : Nat := 65535

/-- The parameters of a new record: its tenant, name, type, payload and times. -/
def insertWidth : Kind → Nat
  | .credential => 6
  | .exporter => 7

/-- The new records that fit into one statement. -/
def maxInserts : Kind → Nat
  | .credential => 10922
  | .exporter => 9362

/-- The names of a batch that are not stored, as often as they are submitted. -/
def newNames (stored : String → Option String) (subs : List (Submission k)) : List String :=
  (subs.map (·.name)).filter fun n => (stored n).isNone

theorem length_parameters (tenant : String) (rows : List (Insert k)) :
    (Command.ofCall (.insert tenant rows)).parameters.length = insertWidth k * rows.length := by
  have hwidth : (Column.all k).length = insertWidth k := by
    cases k <;> rfl
  rw [← hwidth]
  exact Sql.length_parameters_insert tenant rows

theorem insertWidth_mul_le_iff (k : Kind) (n : Nat) :
    insertWidth k * n ≤ maxParameters ↔ n ≤ maxInserts k := by
  cases k <;> simp only [insertWidth, maxParameters, maxInserts] <;> omega

/-- A batch that is planned has readable records only. The statement that inserts the new ones
binds as many parameters as they have cells, and can do so exactly if there are not too many. -/
theorem insert_fits_iff {body tenant : String} {plan : Plan k}
    (h : reconcile stored ctx (decodeBatch k body) = .ok plan) :
    ∃ subs : List (Submission k), decodeBatch k body = subs.map .ok ∧
      (Command.ofCall (.insert tenant plan.inserts)).parameters.length =
        insertWidth k * (newNames stored subs).length ∧
      ((Command.ofCall (.insert tenant plan.inserts)).parameters.length ≤ maxParameters ↔
        (newNames stored subs).length ≤ maxInserts k) := by
  obtain ⟨subs, hsubs, -, hplanned⟩ := reconcile_eq_ok_iff.mp h
  have hrows : plan.inserts.length = (newNames stored subs).length := by
    rw [newNames, ← hplanned.insert_names, List.length_map]
  refine ⟨subs, hsubs, ?_, ?_⟩
  · rw [length_parameters, hrows]
  · rw [length_parameters, hrows]
    exact insertWidth_mul_le_iff k _

theorem insert_fits_pair :
    reconcile (fun _ => none) ⟨⟨0, 0⟩, 1⟩ (decodeBatch .exporter (numbersBody 2)) =
        .ok (numbersPlan ⟨⟨0, 0⟩, 1⟩ 2) ∧
      ∃ subs : List (Submission .exporter), decodeBatch .exporter (numbersBody 2) = subs.map .ok ∧
        (Command.ofCall (.insert "t" (numbersPlan ⟨⟨0, 0⟩, 1⟩ 2).inserts)).parameters.length =
          insertWidth .exporter * (newNames (fun _ => none) subs).length ∧
        ((Command.ofCall (.insert "t" (numbersPlan ⟨⟨0, 0⟩, 1⟩ 2).inserts)).parameters.length ≤
            maxParameters ↔ (newNames (fun _ => none) subs).length ≤ maxInserts .exporter) :=
  have hplan := reconcile_numbersBody ⟨⟨0, 0⟩, 1⟩ (by decide : 0 < 2) (by decide)
  ⟨hplan, insert_fits_iff hplan⟩

/-- The smallest request size of all stages admits a body whose new exporters, all of different
names, do not fit into one statement. -/
theorem numbersBody_overflows :
    Web.App.bodyText
        ⟨(Settings.preset .production).maxBody, (Settings.preset .production).maxDepth⟩
        (Utf8.ofString (numbersBody 9363)) = .ok (numbersBody 9363) ∧
      ∃ plan : Plan .exporter,
        reconcile (fun _ => none) ⟨⟨0, 0⟩, (Settings.preset .production).maxDepth⟩
            (decodeBatch .exporter (numbersBody 9363)) = .ok plan ∧
          (plan.inserts.map (·.name)).Nodup ∧
          maxParameters < (Command.ofCall (.insert "t" plan.inserts)).parameters.length := by
  refine ⟨bodyText_numbersBody (by decide : 0 < 4) (by decide) (by decide),
    _, reconcile_numbersBody _ (by decide) (by decide), ?_, ?_⟩
  · rw [names_numbersPlan]
    exact nodup_numbers 9363
  · rw [length_parameters, length_numbersPlan]
    decide

end TenantRegistry
