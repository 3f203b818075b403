import EmbeddedLang.Proofs.Template.Segments
import EmbeddedLang.Template.Node

/-!
The block structure of templates as a grammar.

It says which sequences of text and directives make up a template, and what its tree is. A body is
taken apart at its first segment, as its reader does, and `Ends` says in which way it may stop.
-/

namespace EmbeddedLang.Template

/-! ### The grammar -/

def Name.expr (name : Name) : Expr :=
  .identifier .start name.text

mutual

/-- Texts and blocks. -/
inductive IsBody : List Segment → List Node → Prop where
  | nil : IsBody [] []
  | text {t : PlainText} {rest : List Segment} {nodes : List Node} (hrest : IsBody rest nodes) :
      IsBody (.text t :: rest) (.text .start t.text :: nodes)
  | block {o : Opening} {inside rest : List Segment} {node : Node} {nodes : List Node}
      (hblock : IsBlock o inside node) (hrest : IsBody rest nodes) :
      IsBody (.opening o :: (inside ++ rest)) (node :: nodes)

/-- What follows the directive that opens a block, through the one that ends it. -/
inductive IsBlock : Opening → List Segment → Node → Prop where
  | choice {e : Name} {body others : List Segment} {nodes : List Node} {branches : List Branch}
      {otherwise : Option (List Node)} (hbody : IsBody body nodes)
      (hothers : IsFurther others branches otherwise) :
      IsBlock (.choice e) (body ++ others) (.choice .start (⟨e.expr, nodes⟩ :: branches) otherwise)
  | loop {x e : Name} {body : List Segment} {nodes : List Node} (hbody : IsBody body nodes) :
      IsBlock (.loop x e) (body ++ [.closing .endfor])
        (.loop .start none x.text e.expr none nodes none)
  | loopOtherwise {x e : Name} {body last : List Segment} {nodes otherwise : List Node}
      {k : Closing} (hbody : IsBody body nodes) (hk : k = .otherwise ∨ k = .elsefor)
      (hlast : IsBody last otherwise) :
      IsBlock (.loop x e) (body ++ .closing k :: (last ++ [.closing .endfor]))
        (.loop .start none x.text e.expr none nodes (some otherwise))
  | fragment {e : Name} {body : List Segment} {nodes : List Node} (hbody : IsBody body nodes) :
      IsBlock (.fragment e) (body ++ [.closing .endcache]) (.fragment .start e.expr none nodes)
  | autoescape {enabled : Bool} {body : List Segment} {nodes : List Node}
      (hbody : IsBody body nodes) :
      IsBlock (.autoescape enabled) (body ++ [.closing .endautoescape])
        (.autoescape .start enabled nodes)

/-- What follows the first branch of a choice. -/
inductive IsFurther : List Segment → List Branch → Option (List Node) → Prop where
  | endif : IsFurther [.closing .endif] [] none
  | otherwise {last : List Segment} {nodes : List Node} (hlast : IsBody last nodes) :
      IsFurther (.closing .otherwise :: (last ++ [.closing .endif])) [] (some nodes)
  | elseif {e : Name} {body others : List Segment} {nodes : List Node} {branches : List Branch}
      {otherwise : Option (List Node)} (hbody : IsBody body nodes)
      (hothers : IsFurther others branches otherwise) :
      IsFurther (.closing (.elseif e) :: (body ++ others)) (⟨e.expr, nodes⟩ :: branches) otherwise

end

/-- A block stands in front of `after`. -/
def Opens (o : Opening) (segments : List Segment) (node : Node) (after : List Segment) : Prop :=
  ∃ inside, segments = inside ++ after ∧ IsBlock o inside node

theorem isBody_nil_iff {nodes : List Node} : IsBody [] nodes ↔ nodes = [] := by
  constructor
  · intro h
    cases h
    rfl
  · rintro rfl
    exact .nil

theorem isBody_text_iff {t : PlainText} {segments : List Segment} {nodes : List Node} :
    IsBody (.text t :: segments) nodes ↔
      ∃ others, nodes = .text .start t.text :: others ∧ IsBody segments others := by
  constructor
  · intro h
    cases h with
    | text hrest => exact ⟨_, rfl, hrest⟩
  · rintro ⟨others, rfl, h⟩
    exact .text h

theorem isBody_opening_iff {o : Opening} {segments : List Segment} {nodes : List Node} :
    IsBody (.opening o :: segments) nodes ↔
      ∃ node after others, Opens o segments node after ∧ nodes = node :: others ∧
        IsBody after others := by
  constructor
  · intro h
    cases h with
    | block hblock hrest => exact ⟨_, _, _, ⟨_, rfl, hblock⟩, rfl, hrest⟩
  · rintro ⟨node, after, others, ⟨inside, rfl, hblock⟩, rfl, h⟩
    exact .block hblock h

theorem not_isBody_closing {k : Closing} {segments : List Segment} {nodes : List Node} :
    ¬ IsBody (.closing k :: segments) nodes := by
  intro h
  cases h

theorem IsFurther.exists_closing {segments : List Segment} {branches : List Branch}
    {otherwise : Option (List Node)} (h : IsFurther segments branches otherwise) :
    ∃ k rest, segments = .closing k :: rest ∧ k.word ∈ ["elseif", "else", "endif"] := by
  cases h with
  | endif => exact ⟨.endif, [], rfl, by decide⟩
  | otherwise => exact ⟨.otherwise, _, rfl, by decide⟩
  | elseif => exact ⟨.elseif _, _, rfl, by simp [Closing.word]⟩

/-! ### Tokens without places -/

def placed (word : TokenKind × String) : Token :=
  ⟨word.1, word.2, .start⟩

def laid (segments : List Segment) : List Token :=
  (segments.flatMap Segment.tokens).map placed

/-- The tokens behind the word of a closing directive. -/
def behind (k : Closing) (segments : List Segment) : List Token :=
  k.arguments.map placed ++ placed closeTag :: laid segments

theorem laid_text (t : PlainText) (segments : List Segment) :
    laid (.text t :: segments) = placed (.rawText, t.text) :: laid segments := rfl

theorem laid_closing (k : Closing) (segments : List Segment) :
    laid (.closing k :: segments) =
      placed (.openStatement, "\x7b%") :: placed (keyword k.word) :: behind k segments := by
  simp [laid, behind, Segment.tokens, tag]

theorem laid_opening (o : Opening) (segments : List Segment) :
    laid (.opening o :: segments) = placed (.openStatement, "\x7b%") :: placed (keyword o.word) ::
      (o.arguments.map placed ++ placed closeTag :: laid segments) := by
  simp [laid, Segment.tokens, tag]

theorem length_le_laid (segments : List Segment) : segments.length ≤ (laid segments).length := by
  induction segments with
  | nil => exact Nat.zero_le _
  | cons s rest ih =>
    cases s with
    | text t => simp [laid_text, ih]
    | opening o => simp [laid_opening]; omega
    | closing k => simp [laid_closing, behind]; omega

/-! ### Bodies with what ends them -/

/-- A body with the directive at which it ends, and what comes behind. -/
structure Cut where
  body : List Segment
  nodes : List Node
  closing : Closing
  after : List Segment

structure Cut.Of (cut : Cut) (expected : List String) (segments : List Segment) : Prop where
  segments_eq : segments = cut.body ++ .closing cut.closing :: cut.after
  isBody : IsBody cut.body cut.nodes
  expected : cut.closing.word ∈ expected

theorem Cut.Of.length_lt {cut : Cut} {expected : List String} {segments : List Segment}
    (h : cut.Of expected segments) : cut.after.length < segments.length := by
  rw [h.segments_eq, List.length_append, List.length_cons]
  omega

/-- A body up to one of the expected words, or up to the end if none is expected. -/
def Ends (expected : List String) (segments : List Segment) (nodes : List Node)
    (closer : Option String) (rest : List Token) : Prop :=
  (∃ cut : Cut, cut.Of expected segments ∧ nodes = cut.nodes ∧
    closer = some cut.closing.word ∧ rest = behind cut.closing cut.after) ∨
  (expected = [] ∧ IsBody segments nodes ∧ closer = none ∧ rest = [])

section Ends

variable {expected : List String} {segments : List Segment} {nodes : List Node}
  {closer : Option String} {rest : List Token}

theorem ends_nil_iff : Ends expected [] nodes closer rest ↔
    expected = [] ∧ nodes = [] ∧ closer = none ∧ rest = [] := by
  have hcut (cut : Cut) : ¬ cut.Of expected [] := fun h => by
    have hlength := h.length_lt
    cases hlength
  simp [Ends, isBody_nil_iff, hcut]

theorem ends_text_iff {t : PlainText} : Ends expected (.text t :: segments) nodes closer rest ↔
    ∃ others, nodes = .text .start t.text :: others ∧ Ends expected segments others closer rest := by
  constructor
  · rintro (⟨⟨body, _, k, after⟩, ⟨hsegments, h, hk⟩, rfl, hend⟩ | ⟨hexpected, h, hend⟩)
    · cases body with
      | nil => cases hsegments
      | cons s body =>
        obtain ⟨rfl, rfl⟩ := List.cons.inj hsegments
        obtain ⟨others, rfl, hothers⟩ := isBody_text_iff.mp h
        exact ⟨others, rfl, .inl ⟨⟨body, others, k, after⟩, ⟨rfl, hothers, hk⟩, rfl, hend⟩⟩
    · obtain ⟨others, rfl, hothers⟩ := isBody_text_iff.mp h
      exact ⟨others, rfl, .inr ⟨hexpected, hothers, hend⟩⟩
  · rintro ⟨_, rfl, ⟨⟨body, nodes, k, after⟩, ⟨rfl, h, hk⟩, rfl, hend⟩ | ⟨hexpected, h, hend⟩⟩
    · exact .inl ⟨⟨.text t :: body, _, k, after⟩, ⟨rfl, .text h, hk⟩, rfl, hend⟩
    · exact .inr ⟨hexpected, .text h, hend⟩

theorem ends_opening_iff {o : Opening} : Ends expected (.opening o :: segments) nodes closer rest ↔
    ∃ node after others, Opens o segments node after ∧ nodes = node :: others ∧
      Ends expected after others closer rest := by
  constructor
  · rintro (⟨⟨body, _, k, after⟩, ⟨hsegments, h, hk⟩, rfl, hend⟩ | ⟨hexpected, h, hend⟩)
    · cases body with
      | nil => cases hsegments
      | cons s body =>
        obtain ⟨rfl, rfl⟩ := List.cons.inj hsegments
        obtain ⟨node, more, others, ⟨inside, rfl, hblock⟩, rfl, hmore⟩ := isBody_opening_iff.mp h
        exact ⟨node, more ++ .closing k :: after, others, ⟨inside, by simp, hblock⟩, rfl,
          .inl ⟨⟨more, others, k, after⟩, ⟨rfl, hmore, hk⟩, rfl, hend⟩⟩
    · obtain ⟨node, after, others, hopens, rfl, hafter⟩ := isBody_opening_iff.mp h
      exact ⟨node, after, others, hopens, rfl, .inr ⟨hexpected, hafter, hend⟩⟩
  · rintro ⟨node, _, _, ⟨inside, rfl, hblock⟩, rfl, hends⟩
    rcases hends with ⟨⟨body, nodes, k, after⟩, ⟨rfl, h, hk⟩, rfl, hend⟩ | ⟨hexpected, h, hend⟩
    · exact .inl ⟨⟨.opening o :: (inside ++ body), _, k, after⟩,
        ⟨by simp, .block hblock h, hk⟩, rfl, hend⟩
    · exact .inr ⟨hexpected, .block hblock h, hend⟩

theorem ends_closing_iff {k : Closing} : Ends expected (.closing k :: segments) nodes closer rest ↔
    k.word ∈ expected ∧ nodes = [] ∧ closer = some k.word ∧ rest = behind k segments := by
  constructor
  · rintro (⟨⟨body, _, k', after⟩, ⟨hsegments, h, hk⟩, rfl, hcloser, hrest⟩ | ⟨-, h, -⟩)
    · cases body with
      | nil =>
        obtain ⟨heq, rfl⟩ := List.cons.inj hsegments
        cases heq
        exact ⟨hk, isBody_nil_iff.mp h, hcloser, hrest⟩
      | cons s body =>
        obtain ⟨rfl, -⟩ := List.cons.inj hsegments
        exact absurd h not_isBody_closing
    · exact absurd h not_isBody_closing
  · rintro ⟨hk, rfl, hcloser, hrest⟩
    exact .inl ⟨⟨[], [], k, segments⟩, ⟨rfl, .nil, hk⟩, rfl, hcloser, hrest⟩

end Ends

/-- Of the closing words only `elseif` leaves something open. -/
theorem Closing.eq_of_word {k k' : Closing} (hk : k.arguments = []) (h : k'.word = k.word) :
    k' = k := by
  cases k <;> cases k' <;> simp_all [arguments, word]

end EmbeddedLang.Template
