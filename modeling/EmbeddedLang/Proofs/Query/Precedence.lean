import EmbeddedLang.Proofs.Parser.Precedence
import EmbeddedLang.Proofs.Query.Parsed
import EmbeddedLang.Proofs.Returns

/-!
Expressions of queries nest by precedence.

The tests `IS NULL` and `IN` end by themselves. So a tighter operator may follow one of them, and
has it as its left operand: `a IS NULL + 1` adds one to a test.
-/

namespace EmbeddedLang.Query

open Parse

def binaryRank? : BinaryOp → Option Nat
  | .or => some 1
  | .and => some 2
  | .eq | .notEq | .lt | .gt | .ltEq | .gtEq | .like | .notLike | .iLike | .notILike | .in
  | .notIn => some 4
  | .bitOr | .bitXor => some 5
  | .bitAnd => some 6
  | .add | .sub | .concat => some 7
  | .mul | .div | .mod => some 8
  | .identical | .notIdentical | .floorDiv | .pow | .range => none

def rank? : Expr → Option Nat
  | .binary _ op _ _ => binaryRank? op
  | .unary _ .not _ => some 3
  | .unary .. => some 9
  | .between .. | .isNull .. => some 4
  | _ => none

def closes : Expr → Bool
  | .isNull .. | .binary _ .in _ _ | .binary _ .notIn _ _ => true
  | _ => false

def ranks : Ranks := ⟨rank?, closes⟩

theorem groupsRight_of_rank {e : Expr} {p : Nat} (h : rank? e = some p) :
    e.groupsRight = false := by
  cases e with
  | binary _ op _ _ =>
    cases op with
    | pow => cases h
    | _ => rfl
  | conditional => cases h
  | _ => rfl

theorem ranks_coherent : ranks.Coherent where
  operation e h := by
    change rank? e = none
    cases e <;> first | rfl | cases h
  grouping h h' := (groupsRight_of_rank h).trans (groupsRight_of_rank h').symm
  tightest {e e' p q} hfloor hcloses hq hp := by
    change rank? e = some q at hq
    cases e with
    | unary _ op _ => 
      cases hq.symm.trans hfloor
    | binary _ op x y =>
      change closes _ = false at hcloses
      unfold Ranks.floor? at hfloor
      simp only [ranks, hcloses, hq] at hfloor
      cases hfloor
    | between _ x y z _ =>
      cases hfloor
    | isNull _ _ _ => cases hcloses
    | _ => cases hq

/-- The word that tells the form ahead; it may stand after `NOT`. -/
def formWord? (c : Cursor) (token : Token) : Option Token :=
  if token.isKeyword "NOT" then c.tokens[1]? else some token

def opensForm (token operator : Token) : Bool :=
  operator.isKeyword "BETWEEN" || operator.isKeyword "IN" ||
    operator.isKeyword "IS" && !token.isKeyword "NOT"

/-- The rank of the form ahead that no table says. -/
def form? (c : Cursor) : Option Nat :=
  c.tokens[0]?.bind fun token => (formWord? c token).bind fun operator =>
    if opensForm token operator then some comparison else none

theorem eq_comparison_of_form? {c : Cursor} {p : Nat} (h : p ∈ form? c) : p = comparison := by
  obtain ⟨token, _, h⟩ := Option.bind_eq_some_iff.mp h
  obtain ⟨operator, _, h⟩ := Option.bind_eq_some_iff.mp h
  split at h
  · exact (Option.some.inj h).symm
  · cases h

theorem formWord_reaches {c : Cursor} (token : Token) :
    Reaches c (fun o c' => c' = c ∧ o = formWord? c token)
      (if token.isKeyword "NOT" then peekNth 1 else pure (some token)) := by
  unfold formWord?
  split
  · exact peekNth_reaches 1
  · exact .pure ⟨rfl, rfl⟩

section forms

variable {c : Cursor} {below : Nat → Parse Expr} {left : Expr} {floor : Nat}
  (hb : grammar.Nested ranks form? below) (hn : ∀ n ∈ left.nodes, ranks.Nests n)
  (hl : ranks.OnLeft comparison comparison left) (hfloor : floor ≤ comparison)

include hb hn hl hfloor

theorem betweenForm_reaches (negated : Bool) : Reaches c
    (fun e c' => c'.tokens <:+ c.tokens ∧ grammar.Settled ranks form? floor e c')
    (betweenForm below left negated) := by
  apply (hb (comparison + 1) c).bind
  rintro low d ⟨hlow, hlow', _⟩
  apply (Reaches.of_yields fun _ => expectKeyword_yields "AND").bind
  rintro _ d' ⟨hand, _⟩
  apply (hb (comparison + 1) d').bind
  rintro high c' ⟨hhigh, hhigh', hstop⟩
  refine .pure ⟨hhigh.trans (hand.trans hlow), ?_⟩
  constructor
  · refine List.forall_mem_cons.mpr ⟨fun p hp => ?_, ?_⟩
    · cases hp
      exact ⟨hl, hlow'.tight, hhigh'.tight⟩
    · exact List.forall_mem_append.mpr
        ⟨List.forall_mem_append.mpr ⟨hn, hlow'.nests⟩, hhigh'.nests⟩
  · refine List.forall_mem_cons.mpr ⟨fun f hf => ?_, hhigh'.ended⟩
    cases hf
    exact hstop
  · refine .inr fun p hp => ?_
    cases hp
    exact hfloor

omit hb in
theorem isNullForm_reaches : Reaches c
    (fun e c' => c'.tokens <:+ c.tokens.drop 1 ∧ grammar.Settled ranks form? floor e c')
    (isNullForm left) := by
  apply next_reaches.bind
  intro _ d hd
  apply (Reaches.of_yields fun _ => eatKeyword_yields "NOT").bind
  rintro negated d' ⟨hnot, _⟩
  apply (Reaches.of_yields fun _ => expectKeyword_yields "NULL").bind
  rintro _ c' ⟨hnull, _⟩
  refine .pure ⟨hd ▸ hnull.trans hnot, .of_closed rfl hfloor ?_ ?_⟩
  · refine List.forall_mem_cons.mpr ⟨fun p hp => ?_, hn⟩
    cases hp
    exact hl
  · exact List.forall_mem_singleton.mpr rfl

omit hn hl hfloor hb in
theorem inOperand_finds : Finds (fun e => e.isOperation = false) (inOperand below) := by
  refine .after fun start => .after fun b => ?_
  split
  · exact .after fun _ => .pure rfl
  · exact .after fun _ => .after fun _ => .pure rfl

omit hb in
theorem settled_membership {right : Expr} (negated : Bool) (hr : right.isOperation = false)
    (hnests : ∀ n ∈ right.nodes, ranks.Nests n) : grammar.Settled ranks form? floor
      (.binary left.position (if negated then .notIn else .in) left right) c := by
  have hright : ranks.OnRight (comparison + 1) right := by
    refine .inr fun p hp => ?_
    rw [ranks_coherent.operation right hr] at hp
    cases hp
  have hspine : ∀ n ∈ right.rightSpine, ranks.floor? n = none := by
    rw [right.rightSpine_of_isOperation hr]
    exact List.forall_mem_singleton.mpr (ranks.floor?_of_isOperation hr)
  cases negated
  all_goals
    refine .of_closed rfl hfloor ?_ (List.forall_mem_cons.mpr ⟨rfl, hspine⟩)
    refine List.forall_mem_cons.mpr ⟨fun p hp => ?_, List.forall_mem_append.mpr ⟨hn, hnests⟩⟩
    cases hp
    exact ⟨hl, hright⟩

end forms

theorem infixForm_reaches {below : Nat → Parse Expr} (hb : grammar.Nested ranks form? below)
    (left : Expr) (floor : Nat) (c : Cursor) (hn : ∀ n ∈ left.nodes, ranks.Nests n)
    (hl : ∀ e, ∀ p ∈ form? c, rank? e = some p → ranks.OnLeft p (e.leftLeast p) left) :
    Reaches c (Advances (grammar.Settled ranks form? floor) (fun c => ∀ p ∈ form? c, p < floor) c)
      (infixForm below left floor) := by
  have hnone (h : form? c = none) : ∀ p ∈ form? c, p < floor := by
    rw [h]
    exact forall_mem_none
  unfold infixForm
  split
  · rename_i hlt
    exact .pure ⟨rfl, fun p hp => eq_comparison_of_form? hp ▸ hlt⟩
  rename_i hge
  have hfloor : floor ≤ comparison := Nat.le_of_not_lt hge
  apply peek_reaches.bind
  rintro o c' ⟨rfl, ho⟩
  cases o with
  | none => exact .pure ⟨rfl, hnone (by rw [form?, ← ho]; rfl)⟩
  | some token =>
    dsimp only
    apply (formWord_reaches token).bind
    rintro o c'' ⟨rfl, hword⟩
    cases o with
    | none => exact .pure ⟨rfl, hnone (by rw [form?, ← ho, Option.bind_some, ← hword]; rfl)⟩
    | some operator =>
      have hform : form? c'' = if opensForm token operator then some comparison else none := by
        rw [form?, ← ho, Option.bind_some, ← hword, Option.bind_some]
      have hleft (hopen : opensForm token operator = true) :
          ranks.OnLeft comparison comparison left := by
        rw [hopen] at hform
        exact hl (.isNull left.position left false) comparison hform rfl
      have hne : c''.tokens ≠ [] := List.ne_nil_of_mem (List.mem_of_getElem? ho.symm)
      have hwidth : 0 < if token.isKeyword "NOT" = true then 2 else 1 := by
        split <;> omega
      dsimp only
      split
      · rename_i hbetween
        have hopen : opensForm token operator = true := by simp [opensForm, hbetween]
        apply (takeTokens_reaches _).bind
        intro _ d hd
        apply (betweenForm_reaches hb hn (hleft hopen) hfloor _).map
        rintro e c' ⟨hsuffix, he⟩
        exact .of_drop hwidth hne (hd ▸ hsuffix) he
      split
      · rename_i hin
        have hopen : opensForm token operator = true := by simp [opensForm, hin]
        apply (takeTokens_reaches _).bind
        intro _ d hd
        apply ((Reaches.of_finds inOperand_finds).and (Reaches.of_yields fun ts =>
          inOperand_yields (hb.yields ranks_coherent ts))).bind
        rintro right c' ⟨hr, hsuffix, hnests⟩
        exact .pure (.of_drop hwidth hne (hd ▸ hsuffix)
          (settled_membership hn (hleft hopen) hfloor _ hr hnests))
      split
      · rename_i his
        have hopen : opensForm token operator = true := by
          unfold opensForm
          rw [his, Bool.or_true]
        apply (isNullForm_reaches hn (hleft hopen) hfloor).map
        rintro e c' ⟨hsuffix, he⟩
        exact .of_drop Nat.one_pos hne hsuffix he
      · rename_i hbetween hin his
        have hopen : opensForm token operator = false := by
          simp only [opensForm, Bool.or_eq_false_iff]
          exact ⟨⟨Bool.eq_false_iff.mpr hbetween, Bool.eq_false_iff.mpr hin⟩,
            Bool.eq_false_iff.mpr his⟩
        rw [hopen] at hform
        exact .pure ⟨rfl, hnone hform⟩

theorem caseForm_finds (below : Nat → Parse Expr) (p : Position) :
    Finds (fun e => e.isOperation = false) (caseForm below p) := by
  have hend (operand : Option Expr) (branches : List When) :
      Finds (fun e : Expr => e.isOperation = false) (do
        let otherwise ← optionalAfter (below 0) "ELSE"
        if ← eatKeyword "END" then return .cases p operand branches otherwise
        else failExpected (if otherwise.isSome then ["END"] else ["WHEN", "ELSE", "END"])) := by
    refine .after fun otherwise => .after fun b => ?_
    split
    · exact .pure rfl
    · exact .failExpected _
  refine .after fun b => ?_
  split
  all_goals
    refine .after fun operand => .after fun branches => ?_
    dsimp only
    split
    · exact .after fun _ => hend _ _
    · exact hend _ _

theorem primaryForm_finds (below : Nat → Parse Expr) :
    Finds (fun o => ∀ e ∈ o, e.isOperation = false) (primaryForm below) := by
  have hcast (p : Position) : Finds (fun e => e.isOperation = false) (castForm below p) :=
    .after fun _ => .after fun _ => .after fun _ => .after fun _ => .after fun _ => .pure rfl
  refine .after fun o => ?_
  cases o with
  | none => exact .pure forall_mem_none
  | some token =>
    have hname : Finds (fun o : Option Expr => ∀ e ∈ o, e.isOperation = false) (do
        let dot := ((← peekNth 1).map (·.isOperator ".")).getD false
        let star := ((← peekNth 2).map (·.isOperator "*")).getD false
        if dot && star then
          Grammar.takeTokens 3
          return some (.qualifiedStar token.position token.name)
        else return none) := by
      refine .after fun _ => .after fun _ => ?_
      dsimp only
      split
      · exact .after fun _ => .pure (forall_mem_some rfl)
      · exact .pure forall_mem_none
    dsimp only
    split
    · exact .after fun _ => .after fun _ => .pure (forall_mem_some rfl)
    · exact hname
    · exact hname
    · split
      · exact .after fun _ => (caseForm_finds below _).map fun _ he => forall_mem_some he
      split
      · exact .after fun _ => (hcast _).map fun _ he => forall_mem_some he
      split
      · exact .after fun _ => .after fun _ => .after fun _ => .pure (forall_mem_some rfl)
      · exact .pure forall_mem_none
    · split
      · exact .after fun _ => .pure (forall_mem_some rfl)
      split
      · refine .after fun _ => ?_
        split
        · exact .after fun _ => .after fun _ => .pure (forall_mem_some rfl)
        · exact .pure forall_mem_none
      · exact .pure forall_mem_none
    · exact .pure forall_mem_none

theorem binaryOps_ranked : ∀ spec ∈ binaryOps, spec.tokens ≠ [] ∧
    binaryRank? spec.op = some spec.precedence ∧ spec.assoc = .left ∧ spec.op ≠ .in ∧
      spec.op ≠ .notIn := by
  decide

theorem grammar_ranked : grammar.RankedBy ranks form? where
  coherent := ranks_coherent
  binary spec hs := by
    obtain ⟨hne, hrank, hassoc, hin, hnotIn⟩ := binaryOps_ranked spec hs
    refine ⟨hne, fun p x y => ⟨hrank, ?_, ?_⟩⟩
    · change closes _ = false
      unfold closes
      split <;> simp_all
    · rw [Expr.rightLeast, groupsRight_of_rank (e := .binary p spec.op x y) hrank,
        Grammar.rightFloor, hassoc]
      rfl
  unary := by
    intro spec hs p x
    simp only [grammar, prefixOps, List.mem_cons, List.not_mem_nil, or_false] at hs
    obtain rfl | rfl | rfl | rfl := hs <;> rfl
  keeps ts below hb := primaryForm_yields (I := Ranks.nesting ranks_coherent) castTarget_passes hb
  primaryForm := primaryForm_finds
  infixForm _ hb left floor c hn hl := infixForm_reaches hb left floor c hn hl

end EmbeddedLang.Query
