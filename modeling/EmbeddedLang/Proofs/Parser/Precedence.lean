import EmbeddedLang.Proofs.Expr.Nodes
import EmbeddedLang.Proofs.Parser.Hereditary
import EmbeddedLang.Proofs.Parser.Reaches

/-!
Parsing by precedence nests operators by rank.

A parser for operands stops where no operator that it may take is ahead. So an operator that is
found after an operand is looser than all that the operand could have swallowed at its end.
-/

namespace EmbeddedLang

/-! ### Forms without operators -/

/-- The forms with a rank in some language. -/
def Expr.isOperation : Expr → Bool
  | .unary .. | .binary .. | .conditional .. | .between .. | .isNull .. | .filter ..
  | .defined .. | .test .. => true
  | _ => false

theorem Expr.rightSpine_of_isOperation {e : Expr} (h : e.isOperation = false) :
    e.rightSpine = [e] := by
  cases e <;> first | rfl | cases h

namespace Grammar

variable {g : Grammar} {below : Nat → Parse Expr}

theorem commonPrimary_finds :
    Finds (fun e => e.isOperation = false) (g.commonPrimary below) := by
  refine .after fun o => ?_
  cases o with
  | none => exact .failExpected _
  | some token =>
    have hliteral {p : Parse Expr} (h : Finds (fun e => e.isOperation = false) p) :
        Finds (fun e => e.isOperation = false) (do
          let e ← p
          let _ ← Parse.next
          return e) :=
      h.bind fun e he => .after fun _ => .pure he
    dsimp only
    split
    · apply hliteral
      unfold integerLiteral
      split
      · split
        · exact .pure rfl
        · exact .throw _
      · exact .throw _
    · apply hliteral
      unfold floatLiteral
      split
      · exact .pure rfl
      · exact .throw _
    · exact .after fun _ => .pure rfl
    · exact .after fun _ => .pure rfl
    · exact .after fun _ => .pure rfl
    · split
      · exact .after fun _ => .pure rfl
      · exact .failExpected _
    · split
      · exact .after fun _ => .after fun _ => .after fun _ => .pure rfl
      split
      · exact .after fun _ => .after fun _ => .pure rfl
      · exact .failExpected _
    · exact .failExpected _

theorem subscript_finds (object : Expr) :
    Finds (fun e => e.isOperation = false) (subscript below object) := by
  refine .after fun first => .after fun b => ?_
  split
  · exact .after fun _ => .after fun _ => .pure rfl
  · refine .after fun _ => ?_
    cases first with
    | none => exact .failExpected _
    | some e => exact .pure rfl

theorem extendPostfix_finds (e : Expr) :
    Finds (fun o => ∀ e ∈ o, e.isOperation = false) (g.extendPostfix below e) := by
  refine .after fun b => ?_
  split
  · exact .after fun _ => .after fun _ => .pure (forall_mem_some rfl)
  refine .after fun b => ?_
  split
  · exact .after fun _ => .pure (forall_mem_some rfl)
  refine .after fun b => ?_
  split
  · exact (subscript_finds e).bind fun _ he => .pure (forall_mem_some he)
  · exact .pure forall_mem_none

theorem primaryWith_finds
    (hp : Finds (fun o => ∀ e ∈ o, e.isOperation = false) (g.primaryForm below)) :
    Finds (fun e => e.isOperation = false) (g.primaryWith below) := by
  apply hp.bind
  intro o ho
  cases o with
  | some e => exact .whileSome (fun e _ => extendPostfix_finds e) (ho e rfl)
  | none => exact commonPrimary_finds.bind fun e he =>
      .whileSome (fun e _ => extendPostfix_finds e) he

end Grammar

/-! ### Ranks -/

namespace Ranks

/-- The floor that the last operand of `e` was parsed with, if that may go on. -/
def floor? (r : Ranks) (e : Expr) : Option Nat :=
  match e with
  | .unary .. => r.rank? e
  | .binary .. | .between .. | .conditional .. =>
    if r.closes e then none else (r.rank? e).map e.rightLeast
  | _ => none

theorem floor?_of_isOperation (r : Ranks) {e : Expr} (he : e.isOperation = false) :
    r.floor? e = none := by
  cases e <;> first | rfl | cases he

/-- Ranks that no table contradicts: those of the same rank are grouped the same way, and what
neither closes nor has an open end binds tightest. -/
structure Coherent (r : Ranks) : Prop where
  operation : ∀ e, e.isOperation = false → r.rank? e = none
  grouping : ∀ {e e' : Expr} {p : Nat}, r.rank? e = some p → r.rank? e' = some p →
    e.groupsRight = e'.groupsRight
  tightest : ∀ {e e' : Expr} {p q : Nat}, r.floor? e = none → r.closes e = false →
    r.rank? e = some q → r.rank? e' = some p → e'.leftLeast p ≤ q

variable {r : Ranks} (hr : r.Coherent)

include hr

theorem Coherent.nests {e : Expr} (he : e.isOperation = false) : r.Nests e := by
  intro p hp
  rw [hr.operation e he] at hp
  cases hp

/-- An operator that the last operand of `e` may not take may stand after `e`. -/
theorem Coherent.leftLeast_le {e e' : Expr} {f p q : Nat} (hf : r.floor? e = some f)
    (hq : r.rank? e = some q) (hp : r.rank? e' = some p) (hlt : p < f) : e'.leftLeast p ≤ q := by
  have hfloor : f = q ∨ f = e.rightLeast q := by
    unfold floor? at hf
    rw [hq] at hf
    split at hf
    · exact .inl (Option.some.inj hf).symm
    · split at hf
      · cases hf
      · exact .inr (Option.some.inj hf).symm
    · split at hf
      · cases hf
      · exact .inr (Option.some.inj hf).symm
    · split at hf
      · cases hf
      · exact .inr (Option.some.inj hf).symm
    · cases hf
  have hleast : e'.leftLeast p ≤ p + 1 := by
    unfold Expr.leftLeast
    split <;> omega
  obtain rfl | rfl := hfloor
  · omega
  unfold Expr.rightLeast at hlt
  split at hlt
  · omega
  · rename_i hgroups
    obtain hpq | rfl := Nat.lt_or_eq_of_le (Nat.le_of_lt_succ hlt)
    · omega
    · have hgroups' : e'.groupsRight = false := by
        rw [← hr.grouping hq hp]
        exact Bool.eq_false_iff.mpr hgroups
      unfold Expr.leftLeast
      rw [hgroups']
      exact Nat.le_refl p

/-- Trees that nest by rank. -/
def nesting : PrimaryClass where
  Holds e := ∀ n ∈ e.nodes, r.Nests n
  HoldsSelect s := ∀ n ∈ s.nodes, r.Nests n
  CastType _ := True
  literal _ _ := List.forall_mem_singleton.mpr (hr.nests rfl)
  identifier _ _ := List.forall_mem_singleton.mpr (hr.nests rfl)
  call _ _ hc ha := List.forall_mem_cons.mpr
    ⟨hr.nests rfl, List.forall_mem_append.mpr ⟨hc, forall_nodesOfItems.mpr ha⟩⟩
  member _ _ hx := List.forall_mem_cons.mpr ⟨hr.nests rfl, hx⟩
  index _ hx hy := List.forall_mem_cons.mpr ⟨hr.nests rfl, List.forall_mem_append.mpr ⟨hx, hy⟩⟩
  slice _ hx hf hl := List.forall_mem_cons.mpr ⟨hr.nests rfl, List.forall_mem_append.mpr
    ⟨List.forall_mem_append.mpr ⟨hx, forall_nodesOfOption.mpr hf⟩, forall_nodesOfOption.mpr hl⟩⟩
  list _ h := List.forall_mem_cons.mpr ⟨hr.nests rfl, forall_nodesOfItems.mpr h⟩
  grouped _ hx := List.forall_mem_cons.mpr ⟨hr.nests rfl, hx⟩
  placeholder _ _ := List.forall_mem_singleton.mpr (hr.nests rfl)
  star _ := List.forall_mem_singleton.mpr (hr.nests rfl)
  qualifiedStar _ _ := List.forall_mem_singleton.mpr (hr.nests rfl)
  cases _ ho hb he := List.forall_mem_cons.mpr ⟨hr.nests rfl, List.forall_mem_append.mpr
    ⟨List.forall_mem_append.mpr ⟨forall_nodesOfOption.mpr ho, forall_nodesOfWhens.mpr hb⟩,
      forall_nodesOfOption.mpr he⟩⟩
  cast _ hx _ := List.forall_mem_cons.mpr ⟨hr.nests rfl, hx⟩
  existence _ hs := List.forall_mem_cons.mpr ⟨hr.nests rfl, hs⟩
  subquery _ hs := List.forall_mem_cons.mpr ⟨hr.nests rfl, hs⟩
  select hp hj hf hg hh ho hl :=
    forall_nodes_select.mpr ⟨hp, fun j h => (hj j h).2, hf, hg, hh, ho, hl⟩

end Ranks

/-! ### Operands and what follows them -/

section parsing

variable (g : Grammar) (r : Ranks) (form? : Cursor → Option Nat)

/-- The rank of the operator ahead; `form?` tells it where no operator of the table is. -/
def Grammar.aheadRank? (c : Cursor) : Option Nat :=
  match g.operatorAhead c with
  | .ok (some spec) _ => some spec.precedence
  | .ok none _ => form? c
  | .error .. => none

/-- No operator that binds at least as tight as `floor` is ahead. -/
def Grammar.Stops (floor : Nat) (c : Cursor) : Prop :=
  ∀ p ∈ g.aheadRank? form? c, p < floor

/-- `e`, which ends at `c`, nests by rank, and no operand at its end could go on there. -/
structure Grammar.Settled (floor : Nat) (e : Expr) (c : Cursor) : Prop where
  nests : ∀ n ∈ e.nodes, r.Nests n
  ended : ∀ n ∈ e.rightSpine, ∀ f ∈ r.floor? n, g.Stops form? f c
  tight : r.OnRight floor e

/-- A parser of operands, for each floor. -/
def Grammar.Nested (below : Nat → Parse Expr) : Prop :=
  ∀ floor c, Reaches c (fun e c' => c'.tokens <:+ c.tokens ∧ g.Settled r form? floor e c' ∧
    g.Stops form? floor c') (below floor)

/-- The tables and the two rules that no table can say keep to the ranks. -/
structure Grammar.RankedBy : Prop where
  coherent : r.Coherent
  binary : ∀ spec ∈ g.binaryOps, spec.tokens ≠ [] ∧ ∀ p x y,
    r.rank? (.binary p spec.op x y) = some spec.precedence ∧
      r.closes (.binary p spec.op x y) = false ∧
      Grammar.rightFloor spec = (Expr.binary p spec.op x y).rightLeast spec.precedence
  unary : ∀ spec ∈ g.prefixOps, ∀ p x, r.rank? (.unary p spec.op x) = some spec.precedence
  keeps : ∀ ts, g.KeepsPrimary (Ranks.nesting coherent) ts
  primaryForm : ∀ below, Finds (fun o => ∀ e ∈ o, e.isOperation = false) (g.primaryForm below)
  infixForm : ∀ below, g.Nested r form? below → ∀ left floor c, (∀ n ∈ left.nodes, r.Nests n) →
    (∀ e, ∀ p ∈ form? c, r.rank? e = some p → r.OnLeft p (e.leftLeast p) left) →
    Reaches c (Parse.Advances (g.Settled r form? floor) (fun c => ∀ p ∈ form? c, p < floor) c)
      (g.infixForm below left floor)

variable {g r form?} {c : Cursor} {below : Nat → Parse Expr}

/-- What neither is an operation nor ends as one. -/
theorem Grammar.Settled.of_primary (hr : r.Coherent) {floor : Nat} {e : Expr}
    (he : e.isOperation = false) (hn : ∀ n ∈ e.nodes, r.Nests n) :
    g.Settled r form? floor e c where
  nests := hn
  ended n h f hf := by
    rw [e.rightSpine_of_isOperation he] at h
    rw [List.mem_singleton.mp h, r.floor?_of_isOperation he] at hf
    cases hf
  tight := .inr fun q hq => by
    rw [hr.operation e he] at hq
    cases hq

/-- What ends by itself is settled wherever it stands. -/
theorem Grammar.Settled.of_closed {floor p : Nat} {e : Expr} (hp : r.rank? e = some p)
    (hfloor : floor ≤ p) (hn : ∀ n ∈ e.nodes, r.Nests n)
    (hspine : ∀ n ∈ e.rightSpine, r.floor? n = none) : g.Settled r form? floor e c where
  nests := hn
  ended n h f hf := by
    rw [hspine n h] at hf
    cases hf
  tight := .inr fun q hq => by
    rw [hp] at hq
    cases hq
    exact hfloor

/-- What such parsers give nests by rank, so the forms made of it do. -/
theorem Grammar.Nested.yields {below : Nat → Parse Expr} (hb : g.Nested r form? below)
    (hr : r.Coherent) (ts : List Token) (floor : Nat) :
    Yields ts (Ranks.nesting hr).Holds (below floor) :=
  Reaches.yields fun c => (hb floor c).imp fun _ _ he => ⟨he.1, he.2.1.nests⟩

/-- After what is settled, the operator ahead finds a left operand that is tight enough. -/
theorem Grammar.Settled.onLeft (hr : r.Coherent) {floor p : Nat} {x e : Expr}
    (hx : g.Settled r form? floor x c) (hp : p ∈ g.aheadRank? form? c) (he : r.rank? e = some p) :
    r.OnLeft p (e.leftLeast p) x where
  tight := by
    cases hc : r.closes x with
    | true => exact .inl rfl
    | false =>
      refine .inr fun q hq => ?_
      cases hf : r.floor? x with
      | none => exact hr.tightest hf hc hq he
      | some f => exact hr.leftLeast_le hf hq he (hx.ended x x.self_mem_rightSpine f hf p hp)
  spine n hn hprefix q hq := by
    have hf : r.floor? n = some q := by
      cases n <;> first | exact hq | cases hprefix
    exact hx.ended n hn q hf p hp

namespace Grammar

open Parse

theorem Settled.unary (h : g.RankedBy r form?) {spec : PrefixSpec} (hs : spec ∈ g.prefixOps)
    {floor : Nat} {x : Expr} (p : Position) (hx : g.Settled r form? spec.precedence x c)
    (hstop : g.Stops form? spec.precedence c) :
    g.Settled r form? floor (.unary p spec.op x) c where
  nests := by
    refine List.forall_mem_cons.mpr ⟨fun q hq => ?_, hx.nests⟩
    rw [h.unary spec hs] at hq
    cases hq
    exact hx.tight
  ended := by
    refine List.forall_mem_cons.mpr ⟨fun f hf => ?_, hx.ended⟩
    have hfloor : some spec.precedence = some f := (h.unary spec hs p x).symm.trans hf
    cases hfloor
    exact hstop
  tight := .inl rfl

theorem Settled.binary (h : g.RankedBy r form?) {spec : OperatorSpec} (hs : spec ∈ g.binaryOps)
    {floor : Nat} {x y : Expr} (p : Position) (hfloor : floor ≤ spec.precedence)
    (hx : ∀ n ∈ x.nodes, r.Nests n)
    (hleft : r.OnLeft spec.precedence ((Expr.binary p spec.op x y).leftLeast spec.precedence) x)
    (hy : g.Settled r form? (rightFloor spec) y c) (hstop : g.Stops form? (rightFloor spec) c) :
    g.Settled r form? floor (.binary p spec.op x y) c := by
  obtain ⟨hrank, hcloses, hright⟩ := (h.binary spec hs).2 p x y
  rw [hright] at hy hstop
  constructor
  · refine List.forall_mem_cons.mpr ⟨fun q hq => ?_, List.forall_mem_append.mpr ⟨hx, hy.nests⟩⟩
    rw [hrank] at hq
    cases hq
    exact ⟨hleft, hy.tight⟩
  · refine List.forall_mem_cons.mpr ⟨fun f hf => ?_, hy.ended⟩
    unfold Ranks.floor? at hf
    rw [hrank, hcloses] at hf
    cases hf
    exact hstop
  · refine .inr fun q hq => ?_
    rw [hrank] at hq
    cases hq
    exact hfloor

variable (h : g.RankedBy r form?) (hb : g.Nested r form? below)

include h hb

theorem unaryWith_reaches (floor : Nat) :
    Reaches c (fun e c' => c'.tokens <:+ c.tokens ∧ g.Settled r form? floor e c')
      (g.unaryWith below) := by
  apply peek_reaches.bind
  rintro o c' ⟨rfl, _⟩
  cases o with
  | none => exact .of_fails (.failExpected _)
  | some token =>
    dsimp only
    split
    · rename_i spec hspec
      obtain ⟨s, _, hfind⟩ := Option.bind_eq_some_iff.mp hspec
      have hs : spec ∈ g.prefixOps := List.mem_of_find?_eq_some hfind
      apply next_reaches.bind
      intro _ d hd
      apply (hb spec.precedence d).bind
      rintro x d' ⟨hsuffix, hx, hstop⟩
      have hall : d'.tokens <:+ c'.tokens := by
        rw [hd] at hsuffix
        exact hsuffix.trans (List.drop_suffix 1 c'.tokens)
      refine .pure ⟨hall, ?_⟩
      -- a minus before a number makes a number, and no operation
      unfold applyPrefix
      split
      · exact .of_primary h.coherent rfl (List.forall_mem_singleton.mpr (h.coherent.nests rfl))
      · exact .of_primary h.coherent rfl (List.forall_mem_singleton.mpr (h.coherent.nests rfl))
      · exact .unary h hs _ hx hstop
    · have hfinds := Reaches.of_finds (c := c') (primaryWith_finds (h.primaryForm below))
      have hnests := Reaches.of_yields (c := c') fun ts =>
        primaryWith_yields (h.keeps ts) (hb.yields h.coherent ts)
      apply (hfinds.and hnests).imp
      rintro e d ⟨he, hsuffix, hn⟩
      exact ⟨hsuffix, .of_primary h.coherent he hn⟩

theorem extendRight_reaches {floor : Nat} {left : Expr} (hl : g.Settled r form? floor left c) :
    Reaches c (Advances (g.Settled r form? floor) (g.Stops form? floor) c)
      (g.extendRight below floor left) := by
  apply Reaches.bind_ok
  intro o c' hahead
  obtain ⟨ts, hc, rfl, ho⟩ := operatorAhead_reads.of_ok o c' hahead
  obtain rfl : c = c' := hc
  cases o with
  | none =>
    have hrank : g.aheadRank? form? c = form? c := by
      unfold aheadRank?
      rw [hahead]
    dsimp only
    have hform := h.infixForm below hb left floor c hl.nests
      fun e p hp he => hl.onLeft h.coherent (hrank ▸ hp) he
    apply hform.imp
    intro o c' ho
    cases o with
    | some e => exact ho
    | none => exact ⟨ho.1, fun p hp => ho.2 p (hrank ▸ hp)⟩
  | some spec =>
    have hrank : g.aheadRank? form? c = some spec.precedence := by
      unfold aheadRank?
      rw [hahead]
    obtain ⟨hs, hsymbols⟩ := ho spec rfl
    dsimp only
    split
    · rename_i hlt
      refine .pure ⟨rfl, fun p hp => ?_⟩
      rw [hrank] at hp
      cases hp
      exact hlt
    · rename_i hge
      apply (takeTokens_reaches _).bind
      intro _ d hd
      apply (hb (rightFloor spec) d).bind
      rintro right d' ⟨hsuffix, hr, hstop⟩
      have hleft := hl.onLeft h.coherent (p := spec.precedence) hrank
        ((h.binary spec hs).2 left.position left right).1
      have hne := (h.binary spec hs).1
      exact .pure (.of_drop (List.length_pos_iff.mpr hne) (hsymbols.nonempty hne) (hd ▸ hsuffix)
        (.binary h hs _ (Nat.le_of_not_lt hge) hl.nests hleft hr hstop))

theorem expressionWith_reaches : g.Nested r form? (g.expressionWith below) := by
  intro floor c
  apply (unaryWith_reaches h hb floor).bind
  rintro left c' ⟨hsuffix, hl⟩
  apply (whileSome_reaches (fun e d he => extendRight_reaches h hb he) hl).imp
  rintro e d ⟨hsuffix', he⟩
  exact ⟨hsuffix'.trans hsuffix, he⟩

omit hb in
theorem nested_reaches (depth : Nat) : g.Nested r form? (g.nested depth) := by
  induction depth with
  | zero =>
    intro floor c
    exact .of_fails (.after fun _ => .throw _)
  | succ depth ih => exact expressionWith_reaches h ih

omit hb in
theorem RankedBy.nests {floor : Nat} {e : Expr} {c' : Cursor}
    (he : g.expression floor c = .ok e c') : ∀ n ∈ e.nodes, r.Nests n :=
  ((nested_reaches h (c.tokens.length + 1) floor c).of_ok e c' he).2.1.nests

end Grammar

end parsing

end EmbeddedLang
