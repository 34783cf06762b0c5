import TenantRegistry.Proofs.Yaml.Prefix.Tokens
import TenantRegistry.Yaml.Node.Reader

/-!
Nodes of a text, read in a longer one.

`Follows x y`: where `x` gets through the tokens of the short text, `y` does the same on those of
the long one. A reader without tokens never has any again, so only a reader that has some left at
the end has to be followed; where the short text ends, the long one has the start of a document,
which is no part of a node either.
-/

namespace TenantRegistry.Yaml

namespace Parted

variable {ts ls : List Token}

theorem tail (h : Parted ts ls) : Parted ts.tail ls.tail := by
  cases h with
  | cut later => exact .cut _
  | ends m stop later => exact .cut _
  | cons t h => exact h

theorem ne_nil (h : Parted ts ls) (hts : ts ≠ []) : ls ≠ [] := by
  cases h with
  | cut later => exact absurd rfl hts
  | ends m stop later => exact List.cons_ne_nil _ _
  | cons t h => exact List.cons_ne_nil _ _

theorem length_le (h : Parted ts ls) : ts.length ≤ ls.length := by
  induction h with
  | cut later => exact Nat.zero_le _
  | ends m stop later => exact Nat.succ_le_succ (Nat.zero_le _)
  | cons t h ih => exact Nat.succ_le_succ ih

end Parted

namespace Reader

/-- Readers of the short and the long text at the same place. -/
structure Matches (r l : Reader) : Prop where
  tokens : Parted r.tokens l.tokens
  handles : l.handles = r.handles
  anchors : l.anchors = r.anchors
  size : l.size = r.size

variable {α β : Type} {x y : StateM Reader α}

/-- If `x` has tokens left, `y` does on the long text what `x` does on the short one. -/
def FollowsFrom (x y : StateM Reader α) (r l : Reader) : Prop :=
  (x r).2.tokens ≠ [] → (y l).1 = (x r).1 ∧ (x r).2.Matches (y l).2

/-- Wherever `x` starts, `y` follows. Without tokens `x` is left without tokens. -/
structure Follows (x y : StateM Reader α) : Prop where
  spent : ∀ r, r.tokens = [] → (x r).2.tokens = []
  same : ∀ r l, r.Matches l → FollowsFrom x y r l

theorem Follows.pure (a : α) : Follows (pure a) (pure a) :=
  ⟨fun _ h => h, fun _ _ h _ => ⟨rfl, h⟩⟩

theorem Follows.bind {f g : α → StateM Reader β} (h : Follows x y)
    (hf : ∀ a, Follows (f a) (g a)) : Follows (x >>= f) (y >>= g) where
  spent r hr := (hf _).spent _ (h.spent r hr)
  same r l hm hne := by
    obtain ⟨hvalue, hm'⟩ := h.same r l hm fun hnil => hne ((hf _).spent _ hnil)
    change (g (y l).1 (y l).2).1 = (f (x r).1 (x r).2).1 ∧
      (f (x r).1 (x r).2).2.Matches (g (y l).1 (y l).2).2
    rw [hvalue]
    exact (hf (x r).1).same _ _ hm' hne

theorem Follows.ite {x' y' : StateM Reader α} {p : Prop} [Decidable p] (h : p → Follows x y)
    (h' : ¬ p → Follows x' y') : Follows (if p then x else x') (if p then y else y') := by
  split
  · next hp => exact h hp
  · next hp => exact h' hp

/-- A reader that ends at a fault has no tokens left. -/
theorem follows_fault (y : StateM Reader Node) : Follows fault y :=
  ⟨fun _ _ => rfl, fun _ _ _ h => absurd rfl h⟩

theorem follows_faultWith (f : Node → α) (y : StateM Reader α) :
    Follows (do return f (← fault)) y :=
  ⟨fun _ _ => rfl, fun _ _ _ h => absurd rfl h⟩

theorem follows_skip : Follows skip skip :=
  ⟨fun _ h => congrArg List.tail h, fun _ _ h _ =>
    ⟨rfl, ⟨h.tokens.tail, h.handles, h.anchors, h.size⟩⟩⟩

theorem follows_count : Follows count count :=
  ⟨fun _ h => h, fun _ _ h _ =>
    ⟨rfl, ⟨h.tokens, h.handles, h.anchors, congrArg (· + 1) h.size⟩⟩⟩

theorem follows_define (name : List Char) : Follows (define name) (define name) := by
  refine ⟨fun _ h => h, fun r l h _ => ⟨congrArg List.length h.anchors, h.tokens, h.handles, ?_,
    h.size⟩⟩
  change (name, l.anchors.length) :: _ = (name, r.anchors.length) :: _
  rw [h.anchors]

theorem follows_emptyScalar (props : Properties) :
    Follows (emptyScalar props) (emptyScalar props) :=
  follows_count.bind fun _ => .pure _

theorem follows_nothing (m : Mark) : Follows (nothing m) (nothing m) :=
  follows_emptyScalar _

theorem follows_place (m : Mark) (anchor : Option (List Char)) (tag : Option Tag) :
    Follows (place m anchor tag) (place m anchor tag) := by
  refine follows_count.bind fun _ => ?_
  cases anchor with
  | none => exact .pure _
  | some name => exact (follows_define name).bind fun _ => .pure _

/-! ## What is next -/

/-- The next tokens of the two readers: the same, or the end and the start of a document. -/
inductive Alike : Token → Token → Prop
  | same (t : Token) : Alike t t
  | ends (m stop : Mark) : Alike ⟨m, m, .streamEnd⟩ ⟨m, stop, .documentStart⟩

/-- What depends on the tokens is followed if it is for each two next tokens. -/
theorem Follows.look {f g : Reader → StateM Reader α}
    (hspent : ∀ hs as n, (f ⟨[], hs, as, n⟩ ⟨[], hs, as, n⟩).2.tokens = [])
    (h : ∀ t u, Alike t u → ∀ ts ls hs as n, Parted (t :: ts) (u :: ls) →
      FollowsFrom (f ⟨t :: ts, hs, as, n⟩) (g ⟨u :: ls, hs, as, n⟩) ⟨t :: ts, hs, as, n⟩
        ⟨u :: ls, hs, as, n⟩) : Follows (get >>= f) (get >>= g) := by
  have hnil : ∀ r : Reader, r.tokens = [] → ((get >>= f) r).2.tokens = [] := by
    rintro ⟨_, hs, as, n⟩ rfl
    exact hspent hs as n
  refine ⟨hnil, ?_⟩
  rintro ⟨ts, hs, as, n⟩ ⟨ls, _, _, _⟩ ⟨hp, rfl, rfl, rfl⟩ hne
  cases hp with
  | cut later => exact absurd (hnil _ rfl) hne
  | ends m stop later => exact h _ _ (.ends m stop) _ _ _ _ _ (.ends m stop later) hne
  | cons t hp => exact h t t (.same t) _ _ _ _ _ (.cons t hp) hne

/-- A step that does not depend on more than the next token. -/
theorem Follows.here (h : Follows x y) {ts ls : List Token} {hs : List (List Char × List UInt8)}
    {as : List (List Char × Nat)} {n : Nat} (hp : Parted ts ls) :
    FollowsFrom x y ⟨ts, hs, as, n⟩ ⟨ls, hs, as, n⟩ :=
  h.same _ _ ⟨hp, rfl, rfl, rfl⟩

theorem follows_next {p : TokenKind → Bool} (hp : p .documentStart = p .streamEnd) :
    Follows (next p) (next p) := by
  refine .look (fun _ _ _ => rfl) fun t u hal ts ls hs as n hparted => ?_
  cases hal with
  | same t => exact (Follows.pure (p t.kind)).here hparted
  | ends m stop =>
    change FollowsFrom (pure (p .streamEnd)) (pure (p .documentStart)) _ _
    rw [hp]
    exact (Follows.pure _).here hparted

theorem follows_omitted : Follows omitted omitted := by
  refine .look (fun _ _ _ => rfl) fun t u hal ts ls hs as n hparted => ?_
  cases hal with
  | same t => exact (follows_nothing t.start).here hparted
  | ends m stop => exact (follows_nothing m).here hparted

theorem follows_properties : Follows properties properties := by
  have hone (p : Prelude) : Follows (do skip; return p) (do skip; return p) :=
    follows_skip.bind fun _ => .pure _
  have htwo (p : Prelude) : Follows (do skip; skip; return p) (do skip; skip; return p) :=
    follows_skip.bind fun _ => hone p
  refine .look (fun _ _ _ => rfl) fun t u hal ts ls hs as n hparted => ?_
  cases hal with
  | ends m stop => exact (Follows.pure _).here hparted
  | same t =>
    obtain ⟨start, stop, kind⟩ := t
    cases kind with
    | anchor name =>
      cases hparted.tail with
      | cut later => exact fun hne => absurd rfl hne
      | ends m stop later => exact (hone ⟨some name, none⟩).here hparted
      | cons t' hlater =>
        obtain ⟨start', stop', kind⟩ := t'
        cases kind with
        | tag h suffix =>
          exact (htwo ⟨some name, some (h, suffix)⟩).here hparted
        | _ => exact (hone ⟨some name, none⟩).here hparted
    | tag h suffix =>
      cases hparted.tail with
      | cut later => exact fun hne => absurd rfl hne
      | ends m stop later => exact (hone ⟨none, some (h, suffix)⟩).here hparted
      | cons t' hlater =>
        obtain ⟨start', stop', kind⟩ := t'
        cases kind with
        | anchor name =>
          exact (htwo ⟨some name, some (h, suffix)⟩).here hparted
        | _ => exact (hone ⟨none, some (h, suffix)⟩).here hparted
    | _ => exact (Follows.pure _).here hparted

/-! ## Nodes -/

/-- With some fuel on the short text and some on the long one, every reader is followed. A kind that
says that a node is left out is neither the end nor the start of a document, or both. -/
structure Keeps (fuel fuel' : Nat) : Prop where
  node : ∀ block indentless, Follows (node block indentless fuel) (node block indentless fuel')
  content : ∀ block indentless m anchor tag t u, Alike t u →
    Follows (content block indentless m anchor tag t fuel)
      (content block indentless m anchor tag u fuel')
  nodeOr : ∀ block indentless (absent : TokenKind → Bool) m,
    absent .documentStart = absent .streamEnd →
      Follows (nodeOr block indentless absent m fuel) (nodeOr block indentless absent m fuel')
  blockItems : Follows (blockItems fuel) (blockItems fuel')
  indentlessItems : Follows (indentlessItems fuel) (indentlessItems fuel')
  blockEntries : Follows (blockEntries fuel) (blockEntries fuel')
  flowItems : ∀ first, Follows (flowItems first fuel) (flowItems first fuel')
  flowPair : Follows (flowPair fuel) (flowPair fuel')
  flowValue : ∀ absent : TokenKind → Bool, absent .documentStart = absent .streamEnd →
    Follows (flowValue absent fuel) (flowValue absent fuel')
  flowEntries : ∀ first, Follows (flowEntries first fuel) (flowEntries first fuel')

theorem keeps_zero (fuel' : Nat) : Keeps 0 fuel' where
  node _ _ := follows_fault _
  content _ _ _ _ _ _ _ _ := follows_fault _
  nodeOr _ _ _ _ _ := follows_fault _
  blockItems := follows_faultWith _ _
  indentlessItems := follows_faultWith _ _
  blockEntries := follows_faultWith _ _
  flowItems _ := follows_faultWith _ _
  flowPair := follows_faultWith _ _
  flowValue _ _ := follows_fault _
  flowEntries _ := follows_faultWith _ _

variable {fuel fuel' : Nat}

theorem Keeps.blockItems_succ (h : Keeps fuel fuel') :
    Follows (Reader.blockItems (fuel + 1)) (Reader.blockItems (fuel' + 1)) := by
  rw [Reader.blockItems, Reader.blockItems]
  refine .look (fun _ _ _ => rfl) fun t u hal ts ls hs as n hparted => ?_
  cases hal with
  | ends m stop => exact (follows_faultWith _ _).here hparted
  | same t =>
    obtain ⟨start, stop, kind⟩ := t
    cases kind with
    | blockEntry =>
      exact (follows_skip.bind fun _ => (h.nodeOr true false _ (some stop) rfl).bind fun _ =>
        h.blockItems.bind fun _ => .pure _).here hparted
    | blockEnd =>
      exact (follows_skip.bind fun _ => follows_count.bind fun _ => .pure _).here hparted
    | _ => exact (follows_faultWith _ _).here hparted

theorem Keeps.indentlessItems_succ (h : Keeps fuel fuel') :
    Follows (Reader.indentlessItems (fuel + 1)) (Reader.indentlessItems (fuel' + 1)) := by
  have hdone : Follows (do count; return ([] : List Node)) (do count; return []) :=
    follows_count.bind fun _ => .pure _
  rw [Reader.indentlessItems, Reader.indentlessItems]
  refine .look (fun _ _ _ => rfl) fun t u hal ts ls hs as n hparted => ?_
  cases hal with
  | ends m stop => exact hdone.here hparted
  | same t =>
    obtain ⟨start, stop, kind⟩ := t
    cases kind with
    | blockEntry =>
      exact (follows_skip.bind fun _ => (h.nodeOr true false _ (some stop) rfl).bind fun _ =>
        h.indentlessItems.bind fun _ => .pure _).here hparted
    | _ => exact hdone.here hparted

theorem Keeps.blockEntries_succ (h : Keeps fuel fuel') :
    Follows (Reader.blockEntries (fuel + 1)) (Reader.blockEntries (fuel' + 1)) := by
  rw [Reader.blockEntries, Reader.blockEntries]
  refine .look (fun _ _ _ => rfl) fun t u hal ts ls hs as n hparted => ?_
  cases hal with
  | ends m stop => exact (follows_faultWith _ _).here hparted
  | same t =>
    obtain ⟨start, stop, kind⟩ := t
    cases kind with
    | key =>
      have hrest (k v : Node) : Follows (do return (k, v) :: (← Reader.blockEntries fuel))
          (do return (k, v) :: (← Reader.blockEntries fuel')) :=
        h.blockEntries.bind fun _ => .pure _
      refine (follows_skip.bind fun _ => (h.nodeOr true true _ (some stop) rfl).bind fun k =>
        Follows.look (fun hs as n => (follows_omitted.bind (hrest k)).spent _ rfl)
          fun t u hal ts ls hs as n hparted => ?_).here hparted
      cases hal with
      | ends m stop => exact (follows_omitted.bind (hrest k)).here hparted
      | same t =>
        obtain ⟨start, stop, kind⟩ := t
        cases kind with
        | value =>
          exact (follows_skip.bind fun _ =>
            (h.nodeOr true true _ (some stop) rfl).bind (hrest k)).here hparted
        | _ => exact (follows_omitted.bind (hrest k)).here hparted
    | blockEnd =>
      exact (follows_skip.bind fun _ => follows_count.bind fun _ => .pure _).here hparted
    | _ => exact (follows_faultWith _ _).here hparted

theorem Keeps.nodeOr_succ (h : Keeps fuel fuel') {block indentless : Bool}
    {absent : TokenKind → Bool} {m : Option Mark}
    (habsent : absent .documentStart = absent .streamEnd) :
    Follows (Reader.nodeOr block indentless absent m (fuel + 1))
      (Reader.nodeOr block indentless absent m (fuel' + 1)) := by
  rw [Reader.nodeOr, Reader.nodeOr]
  refine .look (fun _ _ _ => rfl) fun t u hal ts ls hs as n hparted => ?_
  cases hal with
  | ends start stop =>
    dsimp only
    rw [habsent]
    exact (Follows.ite (fun _ => follows_nothing _) fun _ => h.node block indentless).here hparted
  | same t =>
    exact (Follows.ite (fun _ => follows_nothing _) fun _ => h.node block indentless).here hparted

theorem Keeps.flowValue_succ (h : Keeps fuel fuel') {absent : TokenKind → Bool}
    (habsent : absent .documentStart = absent .streamEnd) :
    Follows (Reader.flowValue absent (fuel + 1)) (Reader.flowValue absent (fuel' + 1)) := by
  rw [Reader.flowValue, Reader.flowValue]
  refine (follows_next rfl).bind fun _ => .ite (fun _ => ?_) fun _ => follows_omitted
  exact follows_skip.bind fun _ => h.nodeOr false false absent none habsent

theorem Keeps.flowPair_succ (h : Keeps fuel fuel') :
    Follows (Reader.flowPair (fuel + 1)) (Reader.flowPair (fuel' + 1)) := by
  rw [Reader.flowPair, Reader.flowPair]
  have hrest (key : Node) : Follows
      (do return (key, ← Reader.flowValue (fun k => k == .flowEntry || k == .flowSequenceEnd) fuel))
      (do return (key, ←
        Reader.flowValue (fun k => k == .flowEntry || k == .flowSequenceEnd) fuel')) :=
    (h.flowValue _ rfl).bind fun _ => .pure _
  refine .look (fun hs as n => ?_) fun t u hal ts ls hs as n hparted => ?_
  · exact ((follows_fault fault).bind hrest).spent _ rfl
  · cases hal with
    | ends m stop => exact ((h.node false false).bind hrest).here hparted
    | same t =>
      exact (Follows.ite
        (fun _ => follows_skip.bind fun _ => (follows_nothing _).bind hrest)
        fun _ => (h.node false false).bind hrest).here hparted

/-- What may stand before an entry in brackets. -/
theorem follows_separated {first : Bool} {rest rest' : StateM Reader α} (f : Node → α)
    (h : Follows rest rest') :
    Follows
      (if (!first) = true then do
        if ← next (· == .flowEntry) then do skip; rest else return f (← fault)
      else rest)
      (if (!first) = true then do
        if ← next (· == .flowEntry) then do skip; rest' else return f (← fault)
      else rest') := by
  refine .ite (fun _ => (follows_next rfl).bind fun _ => ?_) fun _ => h
  exact .ite (fun _ => follows_skip.bind fun _ => h) fun _ => follows_faultWith _ _

theorem Keeps.flowItems_succ (h : Keeps fuel fuel') (first : Bool) :
    Follows (Reader.flowItems first (fuel + 1)) (Reader.flowItems first (fuel' + 1)) := by
  rw [Reader.flowItems, Reader.flowItems]
  have hend : Follows (do skip; count; return ([] : List Node)) (do skip; count; return []) :=
    follows_skip.bind fun _ => follows_count.bind fun _ => .pure _
  refine (follows_next rfl).bind fun _ => .ite (fun _ => hend) fun _ => ?_
  refine follows_separated (fun a => [a]) ?_
  refine .look (fun _ _ _ => rfl) fun t u hal ts ls hs as n hparted => ?_
  have hitem : Follows
      (do let item ← Reader.node false false fuel
          return item :: (← Reader.flowItems false fuel))
      (do let item ← Reader.node false false fuel'
          return item :: (← Reader.flowItems false fuel')) :=
    (h.node false false).bind fun _ => (h.flowItems false).bind fun _ => .pure _
  cases hal with
  | ends m stop => exact hitem.here hparted
  | same t =>
    obtain ⟨start, stop, kind⟩ := t
    cases kind with
    | flowSequenceEnd => exact hend.here hparted
    | key =>
      exact (follows_skip.bind fun _ => follows_count.bind fun _ => h.flowPair.bind fun _ =>
        follows_count.bind fun _ => (h.flowItems false).bind fun _ => .pure _).here hparted
    | _ => exact hitem.here hparted

theorem Keeps.flowEntries_succ (h : Keeps fuel fuel') (first : Bool) :
    Follows (Reader.flowEntries first (fuel + 1)) (Reader.flowEntries first (fuel' + 1)) := by
  rw [Reader.flowEntries, Reader.flowEntries]
  have hend : Follows (do skip; count; return ([] : List (Node × Node)))
      (do skip; count; return []) :=
    follows_skip.bind fun _ => follows_count.bind fun _ => .pure _
  refine (follows_next rfl).bind fun _ => .ite (fun _ => hend) fun _ => ?_
  refine follows_separated (fun a => [(a, Node.fault)]) ?_
  refine .look (fun _ _ _ => rfl) fun t u hal ts ls hs as n hparted => ?_
  have hrest (k v : Node) : Follows (do return (k, v) :: (← Reader.flowEntries false fuel))
      (do return (k, v) :: (← Reader.flowEntries false fuel')) :=
    (h.flowEntries false).bind fun _ => .pure _
  have hlone : Follows
      (do
        let k ← Reader.node false false fuel
        let v ← omitted
        return (k, v) :: (← Reader.flowEntries false fuel))
      (do
        let k ← Reader.node false false fuel'
        let v ← omitted
        return (k, v) :: (← Reader.flowEntries false fuel')) :=
    (h.node false false).bind fun k => follows_omitted.bind (hrest k)
  cases hal with
  | ends m stop => exact hlone.here hparted
  | same t =>
    obtain ⟨start, stop, kind⟩ := t
    cases kind with
    | flowMappingEnd => exact hend.here hparted
    | key =>
      exact (follows_skip.bind fun _ => (h.nodeOr false false _ none rfl).bind fun k =>
        (h.flowValue _ rfl).bind (hrest k)).here hparted
    | _ => exact hlone.here hparted

theorem Keeps.content_succ (h : Keeps fuel fuel') {block indentless : Bool} {m : Mark}
    {anchor : Option (List Char)} {tag : Option Tag} {t u : Token} (hal : Alike t u) :
    Follows (Reader.content block indentless m anchor tag t (fuel + 1))
      (Reader.content block indentless m anchor tag u (fuel' + 1)) := by
  have hplace : Follows (do return Node.scalar (← place m anchor tag) .plain "")
      (do return Node.scalar (← place m anchor tag) .plain "") :=
    (follows_place m anchor tag).bind fun _ => .pure _
  have hindentless : Follows
      (do return Node.sequence (← place m anchor tag) (← Reader.indentlessItems fuel))
      (do return Node.sequence (← place m anchor tag) (← Reader.indentlessItems fuel')) :=
    (follows_place _ _ _).bind fun _ => h.indentlessItems.bind fun _ => .pure _
  have hsequence : Follows
      (do skip; return Node.sequence (← place m anchor tag) (← Reader.blockItems fuel))
      (do skip; return Node.sequence (← place m anchor tag) (← Reader.blockItems fuel')) :=
    follows_skip.bind fun _ => (follows_place _ _ _).bind fun _ =>
      h.blockItems.bind fun _ => .pure _
  have hmapping : Follows
      (do skip; return Node.mapping (← place m anchor tag) (← Reader.blockEntries fuel))
      (do skip; return Node.mapping (← place m anchor tag) (← Reader.blockEntries fuel')) :=
    follows_skip.bind fun _ => (follows_place _ _ _).bind fun _ =>
      h.blockEntries.bind fun _ => .pure _
  have habsent := Follows.ite (p := (anchor.isSome || tag.isSome) = true) (fun _ => hplace)
    fun _ => follows_fault fault
  rw [Reader.content, Reader.content]
  cases hal with
  | ends start stop =>
    exact .ite (fun _ => hindentless) fun _ => .ite (fun _ => hsequence) fun _ =>
      .ite (fun _ => hmapping) fun _ => habsent
  | same t =>
    obtain ⟨start, stop, kind⟩ := t
    cases kind with
    | scalar style text =>
      exact follows_skip.bind fun _ => (follows_place _ _ _).bind fun _ => .pure _
    | flowSequenceStart =>
      exact follows_skip.bind fun _ => (follows_place _ _ _).bind fun _ =>
        (h.flowItems true).bind fun _ => .pure _
    | flowMappingStart =>
      exact follows_skip.bind fun _ => (follows_place _ _ _).bind fun _ =>
        (h.flowEntries true).bind fun _ => .pure _
    | _ =>
      exact .ite (fun _ => hindentless) fun _ => .ite (fun _ => hsequence) fun _ =>
        .ite (fun _ => hmapping) fun _ => habsent

theorem Keeps.node_succ (h : Keeps fuel fuel') (block indentless : Bool) :
    Follows (Reader.node block indentless (fuel + 1))
      (Reader.node block indentless (fuel' + 1)) := by
  rw [Reader.node, Reader.node]
  refine .look (fun _ _ _ => rfl) fun t u hal ts ls hs as n hparted => ?_
  rcases hal with ⟨start, stop, kind⟩ | ⟨m, stop⟩
  case' same => cases kind
  case same.alias name =>
    refine (follows_skip.bind fun _ => ?_).here hparted
    dsimp only
    cases as.find? (·.1 == name) with
    | none => exact follows_fault _
    | some found => exact follows_count.bind fun _ => .pure _
  -- Any other token is read as what anchor and tag belong to.
  all_goals
    refine (follows_properties.bind fun prelude => ?_).here hparted
    obtain ⟨anchor, tag⟩ := prelude
    rcases tag with - | ⟨name, suffix⟩
    · exact .look (fun _ _ _ => rfl) fun t u hal ts ls hs as n hparted =>
        (h.content _ _ _ _ _ t u hal).here hparted
    · dsimp only
      cases resolve hs name suffix with
      | none => exact .look (fun _ _ _ => rfl) fun _ _ _ _ _ _ _ _ => (follows_fault _).here
      | some tag =>
        exact .look (fun _ _ _ => rfl) fun t u hal ts ls hs as n hparted =>
          (h.content _ _ _ _ _ t u hal).here hparted

theorem keeps : ∀ {fuel fuel' : Nat}, fuel ≤ fuel' → Keeps fuel fuel'
  | 0, fuel', _ => keeps_zero fuel'
  | fuel + 1, fuel' + 1, hle => by
    have h := keeps (Nat.le_of_succ_le_succ hle)
    exact {
      node := h.node_succ
      content := fun _ _ _ _ _ _ _ => h.content_succ
      nodeOr := fun _ _ _ _ => h.nodeOr_succ
      blockItems := h.blockItems_succ
      indentlessItems := h.indentlessItems_succ
      blockEntries := h.blockEntries_succ
      flowItems := h.flowItems_succ
      flowPair := h.flowPair_succ
      flowValue := fun _ => h.flowValue_succ
      flowEntries := h.flowEntries_succ }

end Reader

end TenantRegistry.Yaml
