import EmbeddedLang.Proofs.Parser.Gives
import EmbeddedLang.Proofs.Template.Blocks
import EmbeddedLang.Proofs.Template.Relocation

/-!
The parser accepts the templates that derive from the grammar of blocks.

It finds the tree where there is one, and names an unbalanced block where there is none. Each parser
of a directive decides its production, given that the parser of bodies does so for shorter bodies.
-/

namespace EmbeddedLang.Template

open Parse

/-! ### Directives -/

def Unbalanced (e : CompileError) : Prop :=
  ∃ p closer found, e = .unbalancedBlock p closer found

/-- Bodies of fewer than `n` segments are read as the grammar has it. -/
def Nests (c : Cursor) (inner : BodyParser) (n : Nat) : Prop :=
  ∀ (place : Place) (expected : List String) (segments : List Segment), expected ≠ [] →
    expected ⊆ closers → segments.length < n →
    Decides Unbalanced c (inner place expected) (laid segments) fun found rest =>
      ∃ cut : Cut, cut.Of expected segments ∧ found = (cut.nodes, cut.closing.word) ∧
        rest = behind cut.closing cut.after

section Heads

variable (c : Cursor) (ts : List Token)

theorem expression_name (e : Name) :
    Gives expression (c.before (placed e.token :: placed closeTag :: ts)) e.expr
      (c.before (placed closeTag :: ts)) := rfl

theorem closing_gives :
    Gives closing (c.before (placed closeTag :: ts)) () (c.before ts) := rfl

theorem loopNames_name (x : Name) :
    Gives loopNames (c.before (placed x.token :: placed (keyword "in") :: ts)) (none, x.text)
      (c.before (placed (keyword "in") :: ts)) := rfl

theorem noFilter_gives :
    Gives (expressionAfter "if") (c.before (placed closeTag :: ts)) none
      (c.before (placed closeTag :: ts)) := rfl

theorem noLifetime_gives :
    Gives lifetime? (c.before (placed closeTag :: ts)) none (c.before (placed closeTag :: ts)) := rfl

theorem switch_gives (enabled : Bool) :
    Gives switch (c.before (placed (keyword (if enabled then "true" else "false")) :: ts)) enabled
      (c.before ts) := by
  cases enabled <;> rfl

end Heads

section Directives

variable {c : Cursor} {inner : BodyParser} {n : Nat} {segments : List Segment} (place : Place)

theorem branch_decides (hinner : Nests c inner n) (hlength : segments.length < n) (e : Name) :
    Decides Unbalanced c (branch inner place) (placed e.token :: placed closeTag :: laid segments)
      fun found rest => ∃ cut : Cut, cut.Of ["elseif", "else", "endif"] segments ∧
        found = (⟨e.expr, cut.nodes⟩, cut.closing.word) ∧ rest = behind cut.closing cut.after := by
  refine .after (expression_name c _ e) (.after (closing_gives c _) ?_)
  have hbody := hinner place ["elseif", "else", "endif"] segments (by simp) (by decide) hlength
  refine (hbody.map fun found => (Branch.mk e.expr found.1, found.2)).congr fun found rest => ?_
  constructor
  · rintro ⟨_, ⟨cut, hcut, rfl, hrest⟩, rfl⟩
    exact ⟨cut, hcut, rfl, hrest⟩
  · rintro ⟨cut, hcut, rfl, hrest⟩
    exact ⟨_, ⟨cut, hcut, rfl, hrest⟩, rfl⟩

theorem wrapped_decides {α : Type} (hinner : Nests c inner n) (hlength : segments.length < n)
    {k : Closing} (hk : k.arguments = []) (wrap : List Node → α) :
    Decides Unbalanced c
      (do
        closing
        let (body, _) ← inner place [k.word]
        return wrap body)
      (placed closeTag :: laid segments)
      fun found rest => ∃ body nodes after, segments = body ++ .closing k :: after ∧
        IsBody body nodes ∧ found = wrap nodes ∧ rest = placed closeTag :: laid after := by
  have hclosers : [k.word] ⊆ closers := by
    cases k <;> simp [Closing.word, closers]
  refine .after (closing_gives c _) ?_
  refine ((hinner place [k.word] segments (by simp) hclosers hlength).map fun found =>
    wrap found.1).congr fun found rest => ?_
  constructor
  · rintro ⟨_, ⟨⟨body, nodes, k', after⟩, ⟨hsegments, hbody, hword⟩, rfl, hrest⟩, rfl⟩
    obtain rfl := Closing.eq_of_word hk (List.mem_singleton.mp hword)
    exact ⟨body, nodes, after, hsegments, hbody, rfl, by simpa [behind, hk] using hrest⟩
  · rintro ⟨body, nodes, after, hsegments, hbody, rfl, rfl⟩
    have hcut : Cut.Of ⟨body, nodes, k, after⟩ [k.word] segments :=
      ⟨hsegments, hbody, List.mem_singleton_self _⟩
    exact ⟨_, ⟨_, hcut, rfl, by simp [behind, hk]⟩, rfl⟩

theorem finalBody_decides (hinner : Nests c inner n) (hlength : segments.length < n) {k : Closing}
    (hk : k.arguments = []) :
    Decides Unbalanced c (finalBody inner place k.word) (placed closeTag :: laid segments)
      fun found rest => ∃ body nodes after, segments = body ++ .closing k :: after ∧
        IsBody body nodes ∧ found = nodes ∧ rest = placed closeTag :: laid after :=
  wrapped_decides place hinner hlength hk id

/-- A choice after its branches. -/
def lastBranch (inner : BodyParser) (found : List Branch × String) : Parse Node := do
  if found.2 = "else" then
    return .choice .start found.1 (some (← finalBody inner place "endif"))
  else return .choice .start found.1 none

/-- What follows a branch stands in front of `after`. -/
def Continues (k : Closing) (segments : List Segment) (branches : List Branch)
    (otherwise : Option (List Node)) (after : List Segment) : Prop :=
  ∃ inside, .closing k :: segments = inside ++ after ∧ IsFurther inside branches otherwise

theorem lastBranch_otherwise (hinner : Nests c inner n) (hlength : segments.length < n)
    (found : List Branch) :
    Decides Unbalanced c (lastBranch place inner (found, "else")) (behind .otherwise segments)
      fun node rest => ∃ branches otherwise after,
        Continues .otherwise segments branches otherwise after ∧
          node = .choice .start (found ++ branches) otherwise ∧
          rest = placed closeTag :: laid after := by
  have hlast := finalBody_decides place hinner hlength (k := .endif) rfl
  refine (hlast.map fun nodes => Node.choice .start found (some nodes)).congr fun node rest => ?_
  constructor
  · rintro ⟨nodes, ⟨body, _, after, rfl, hbody, rfl, hrest⟩, rfl⟩
    have hsegments : .closing .otherwise :: (body ++ .closing .endif :: after) =
        (.closing .otherwise :: (body ++ [.closing .endif])) ++ after := by simp
    exact ⟨[], some nodes, after, ⟨_, hsegments, .otherwise hbody⟩, by simp, hrest⟩
  · rintro ⟨branches, otherwise, after, ⟨inside, hsegments, hfurther⟩, rfl, hrest⟩
    cases hfurther with
    | otherwise hbody =>
      obtain ⟨-, rfl⟩ := List.cons.inj hsegments
      exact ⟨_, ⟨_, _, after, by simp, hbody, rfl, hrest⟩, by simp⟩
    | endif => cases hsegments
    | elseif => cases hsegments

theorem lastBranch_endif (inner : BodyParser) (found : List Branch) :
    Decides Unbalanced c (lastBranch place inner (found, "endif")) (behind .endif segments)
      fun node rest => ∃ branches otherwise after,
        Continues .endif segments branches otherwise after ∧
          node = .choice .start (found ++ branches) otherwise ∧
          rest = placed closeTag :: laid after := by
  refine (Decides.pure (Node.choice .start found none)).congr fun node rest => ?_
  constructor
  · rintro ⟨rfl, rfl⟩
    exact ⟨[], none, segments, ⟨[.closing .endif], rfl, .endif⟩, by simp, rfl⟩
  · rintro ⟨branches, otherwise, after, ⟨inside, hsegments, hfurther⟩, rfl, hrest⟩
    cases hfurther with
    | endif =>
      obtain ⟨-, rfl⟩ := List.cons.inj hsegments
      exact ⟨by simp, hrest⟩
    | otherwise => cases hsegments
    | elseif => cases hsegments

/-- The rest of a choice, from the word after a branch on. -/
theorem branches_decide (hinner : Nests c inner n) (fuel : Nat) (hfuel : segments.length < fuel)
    (hlength : segments.length < n) (found : List Branch) {k : Closing}
    (hk : k.word ∈ ["elseif", "else", "endif"]) :
    Decides Unbalanced c
      (iterate (moreBranches inner place) fuel (found, k.word) >>= lastBranch place inner)
      (behind k segments)
      fun node rest => ∃ branches otherwise after, Continues k segments branches otherwise after ∧
        node = .choice .start (found ++ branches) otherwise ∧
        rest = placed closeTag :: laid after := by
  induction fuel generalizing segments found k with
  | zero => exact absurd hfuel (Nat.not_lt_zero _)
  | succ fuel ih =>
    rw [iterate, bind_assoc]
    cases k with
    | elseif e =>
      have hstep : Decides Unbalanced c (moreBranches inner place (found, "elseif"))
          (placed e.token :: placed closeTag :: laid segments) fun found' us =>
          ∃ cut : Cut, cut.Of ["elseif", "else", "endif"] segments ∧
            found' = some (found ++ [⟨e.expr, cut.nodes⟩], cut.closing.word) ∧
            us = behind cut.closing cut.after := by
        refine ((branch_decides place hinner hlength e).map fun p =>
          some (found ++ [p.1], p.2)).congr fun found' us => ?_
        constructor
        · rintro ⟨_, ⟨cut, hcut, rfl, hus⟩, rfl⟩
          exact ⟨cut, hcut, rfl, hus⟩
        · rintro ⟨cut, hcut, rfl, hus⟩
          exact ⟨_, ⟨cut, hcut, rfl, hus⟩, rfl⟩
      refine (hstep.bind (fun cut node rest => ∃ branches otherwise after,
        Continues cut.closing cut.after branches otherwise after ∧
          node = .choice .start (found ++ [⟨e.expr, cut.nodes⟩] ++ branches) otherwise ∧
          rest = placed closeTag :: laid after) ?_).congr fun node rest => ?_
      · rintro cut _ _ ⟨hcut, rfl, rfl⟩
        have hless := hcut.length_lt
        exact ih (by omega) (by omega) _ hcut.expected
      constructor
      · rintro ⟨cut, ⟨_, _, hcut, -⟩, branches, otherwise, after, ⟨inside, hinside, hfurther⟩, rfl, hrest⟩
        refine ⟨⟨e.expr, cut.nodes⟩ :: branches, otherwise, after,
          ⟨.closing (.elseif e) :: (cut.body ++ inside), ?_, .elseif hcut.isBody hfurther⟩,
          by simp, hrest⟩
        rw [hcut.segments_eq, hinside]
        simp
      · rintro ⟨_, otherwise, after, ⟨_, hsegments, hfurther⟩, rfl, hrest⟩
        cases hfurther with
        | @elseif e' body others nodes branches _ hbody hothers =>
          obtain ⟨rfl, rfl⟩ : e = e' ∧ segments = body ++ (others ++ after) := by
            simpa using hsegments
          obtain ⟨k, tail, rfl, hk⟩ := hothers.exists_closing
          refine ⟨⟨body, nodes, k, tail ++ after⟩, ⟨_, _, ⟨by simp, hbody, hk⟩, rfl, rfl⟩,
            branches, otherwise, after, ⟨_, rfl, hothers⟩, by simp, hrest⟩
        | endif => cases hsegments
        | otherwise => cases hsegments
    | otherwise =>
      have hnone : Gives (moreBranches inner place (found, "else"))
          (c.before (behind .otherwise segments)) none (c.before (behind .otherwise segments)) := rfl
      exact .after hnone (lastBranch_otherwise place hinner hlength found)
    | endif =>
      have hnone : Gives (moreBranches inner place (found, "endif"))
          (c.before (behind .endif segments)) none (c.before (behind .endif segments)) := rfl
      exact .after hnone (lastBranch_endif place inner found)
    | _ => simp [Closing.word] at hk

theorem choiceDirective_decides (hinner : Nests c inner n) (hlength : segments.length < n)
    (e : Name) :
    Decides Unbalanced c (choiceDirective inner place .start)
      (placed e.token :: placed closeTag :: laid segments)
      fun node rest => ∃ after, Opens (.choice e) segments node after ∧
        rest = placed closeTag :: laid after := by
  refine ((branch_decides place hinner hlength e).bind (fun cut node rest =>
    ∃ branches otherwise after, Continues cut.closing cut.after branches otherwise after ∧
      node = .choice .start ([⟨e.expr, cut.nodes⟩] ++ branches) otherwise ∧
      rest = placed closeTag :: laid after) ?_).congr fun node rest => ?_
  · rintro cut _ _ ⟨hcut, rfl, rfl⟩
    have hless := hcut.length_lt
    have hfuel : cut.after.length < ((behind cut.closing cut.after) ++ c.tokens).length + 1 := by
      have hlaid := length_le_laid cut.after
      simp only [behind, List.length_append, List.length_cons]
      omega
    exact .whileSome (branches_decide place hinner _ hfuel (by omega) _ hcut.expected)
  constructor
  · rintro ⟨cut, ⟨_, _, hcut, -⟩, branches, otherwise, after, ⟨inside, hinside, hfurther⟩, rfl, hrest⟩
    refine ⟨after, ⟨cut.body ++ inside, ?_, .choice hcut.isBody hfurther⟩, hrest⟩
    rw [hcut.segments_eq, hinside, List.append_assoc]
  · rintro ⟨after, ⟨_, rfl, hblock⟩, hrest⟩
    cases hblock with
    | @choice _ body others nodes branches otherwise hbody hothers =>
      obtain ⟨k, tail, rfl, hk⟩ := hothers.exists_closing
      exact ⟨⟨body, nodes, k, tail ++ after⟩, ⟨_, _, ⟨by simp, hbody, hk⟩, rfl, rfl⟩,
        branches, otherwise, after, ⟨_, rfl, hothers⟩, rfl, hrest⟩

/-- A loop after its first body. -/
def lastBody (inner : BodyParser) (x e : Name) (found : List Node × String) : Parse Node := do
  if found.2 = "endfor" then return .loop .start none x.text e.expr none found.1 none
  else
    let otherwise ← finalBody inner place "endfor"
    return .loop .start none x.text e.expr none found.1 (some otherwise)

theorem lastBody_decides (hinner : Nests c inner n) (hlength : segments.length < n) (x e : Name)
    (nodes : List Node) {k : Closing} (hk : k = .otherwise ∨ k = .elsefor) :
    Decides Unbalanced c (lastBody place inner x e (nodes, k.word)) (behind k segments)
      fun node rest => ∃ body otherwise after, segments = body ++ .closing .endfor :: after ∧
        IsBody body otherwise ∧
        node = .loop .start none x.text e.expr none nodes (some otherwise) ∧
        rest = placed closeTag :: laid after := by
  have hlast := (finalBody_decides place hinner hlength (k := .endfor) rfl).map fun otherwise =>
    Node.loop .start none x.text e.expr none nodes (some otherwise)
  have hgood (node : Node) (rest : List Token) :
      (∃ found, (∃ body otherwise after, segments = body ++ .closing .endfor :: after ∧
          IsBody body otherwise ∧ found = otherwise ∧ rest = placed closeTag :: laid after) ∧
        node = .loop .start none x.text e.expr none nodes (some found)) ↔
      ∃ body otherwise after, segments = body ++ .closing .endfor :: after ∧
        IsBody body otherwise ∧
        node = .loop .start none x.text e.expr none nodes (some otherwise) ∧
        rest = placed closeTag :: laid after := by
    constructor
    · rintro ⟨_, ⟨body, otherwise, after, hsegments, hbody, rfl, hrest⟩, rfl⟩
      exact ⟨body, _, after, hsegments, hbody, rfl, hrest⟩
    · rintro ⟨body, otherwise, after, hsegments, hbody, rfl, hrest⟩
      exact ⟨_, ⟨body, otherwise, after, hsegments, hbody, rfl, hrest⟩, rfl⟩
  rcases hk with rfl | rfl
  · exact hlast.congr hgood
  · exact hlast.congr hgood

theorem loopDirective_decides (hinner : Nests c inner n) (hlength : segments.length < n)
    (x e : Name) :
    Decides Unbalanced c (loopDirective inner place .start)
      (placed x.token :: placed (keyword "in") :: placed e.token :: placed closeTag :: laid segments)
      fun node rest => ∃ after, Opens (.loop x e) segments node after ∧
        rest = placed closeTag :: laid after := by
  have hin (ts : List Token) : Gives (expectKeyword "in") (c.before (placed (keyword "in") :: ts))
      (placed (keyword "in")) (c.before ts) := expect_gives rfl
  refine .after (loopNames_name c _ x) (.after (hin _) ?_)
  refine .after (expression_name c _ e) (.after (noFilter_gives c _) (.after (closing_gives c _) ?_))
  have hbody := hinner { place with inLoop := true } ["else", "elsefor", "endfor"] segments
    (by simp) (by decide) hlength
  refine (hbody.bind (f := lastBody place inner x e) (fun cut node rest =>
    (cut.closing = .endfor ∧ node = .loop .start none x.text e.expr none cut.nodes none ∧
      rest = placed closeTag :: laid cut.after) ∨
    ((cut.closing = .otherwise ∨ cut.closing = .elsefor) ∧ ∃ body otherwise after,
      cut.after = body ++ .closing .endfor :: after ∧ IsBody body otherwise ∧
        node = .loop .start none x.text e.expr none cut.nodes (some otherwise) ∧
        rest = placed closeTag :: laid after)) ?_).congr fun node rest => ?_
  · rintro ⟨body, nodes, k, after⟩ _ _ ⟨hcut, rfl, rfl⟩
    have hless := hcut.length_lt
    have hword := hcut.expected
    dsimp only at hless hword ⊢
    by_cases hk : k = .endfor
    · subst hk
      refine (Decides.pure (Node.loop .start none x.text e.expr none nodes none)).congr
        fun node rest => ?_
      simp [behind, Closing.arguments]
    · have hother : k = .otherwise ∨ k = .elsefor := by
        cases k <;> simp_all [Closing.word]
      refine (lastBody_decides place hinner (by omega) x e nodes hother).congr fun node rest => ?_
      simp [hk, hother]
  constructor
  · rintro ⟨⟨body, nodes, k, after⟩, ⟨_, _, ⟨rfl, hfirst, -⟩, -⟩, hlast⟩
    rcases hlast with ⟨rfl, rfl, hrest⟩ | ⟨hk, last, otherwise, rest', rfl, hlast, rfl, hrest⟩
    · exact ⟨after, ⟨body ++ [.closing .endfor], by simp, .loop hfirst⟩, hrest⟩
    · exact ⟨rest', ⟨body ++ .closing k :: (last ++ [.closing .endfor]), by simp,
        .loopOtherwise hfirst hk hlast⟩, hrest⟩
  · rintro ⟨after, ⟨_, rfl, hblock⟩, hrest⟩
    cases hblock with
    | @loop _ _ body nodes hfirst =>
      exact ⟨⟨body, nodes, .endfor, after⟩, ⟨_, _, ⟨by simp, hfirst, by simp [Closing.word]⟩, rfl, rfl⟩,
        .inl ⟨rfl, rfl, hrest⟩⟩
    | @loopOtherwise _ _ body last nodes otherwise k hfirst hk hlast =>
      have hword : k.word ∈ ["else", "elsefor", "endfor"] := by
        rcases hk with rfl | rfl <;> decide
      exact ⟨⟨body, nodes, k, last ++ .closing .endfor :: after⟩,
        ⟨_, _, ⟨by simp, hfirst, hword⟩, rfl, rfl⟩,
        .inr ⟨hk, last, otherwise, after, rfl, hlast, rfl, hrest⟩⟩

theorem fragmentDirective_decides (hinner : Nests c inner n) (hlength : segments.length < n)
    (e : Name) :
    Decides Unbalanced c (fragmentDirective inner place .start)
      (placed e.token :: placed closeTag :: laid segments)
      fun node rest => ∃ after, Opens (.fragment e) segments node after ∧
        rest = placed closeTag :: laid after := by
  refine .after (expression_name c _ e) (.after (noLifetime_gives c _) ?_)
  refine (wrapped_decides place hinner hlength (k := .endcache) rfl
    (Node.fragment .start e.expr none)).congr fun node rest => ?_
  constructor
  · rintro ⟨body, nodes, after, rfl, hbody, rfl, hrest⟩
    exact ⟨after, ⟨body ++ [.closing .endcache], by simp, .fragment hbody⟩, hrest⟩
  · rintro ⟨after, ⟨inside, rfl, hblock⟩, hrest⟩
    cases hblock with
    | fragment hbody => exact ⟨_, _, after, by simp, hbody, rfl, hrest⟩

theorem autoescapeDirective_decides (hinner : Nests c inner n) (hlength : segments.length < n)
    (enabled : Bool) :
    Decides Unbalanced c (autoescapeDirective inner place .start)
      (placed (keyword (if enabled then "true" else "false")) :: placed closeTag :: laid segments)
      fun node rest => ∃ after, Opens (.autoescape enabled) segments node after ∧
        rest = placed closeTag :: laid after := by
  refine .after (switch_gives c _ enabled) ?_
  refine (wrapped_decides place hinner hlength (k := .endautoescape) rfl
    (Node.autoescape .start enabled)).congr fun node rest => ?_
  constructor
  · rintro ⟨body, nodes, after, rfl, hbody, rfl, hrest⟩
    exact ⟨after, ⟨body ++ [.closing .endautoescape], by simp, .autoescape hbody⟩, hrest⟩
  · rintro ⟨after, ⟨inside, rfl, hblock⟩, hrest⟩
    cases hblock with
    | autoescape hbody => exact ⟨_, _, after, by simp, hbody, rfl, hrest⟩

theorem directive_decides (hinner : Nests c inner n) (hlength : segments.length < n) (o : Opening) :
    Decides Unbalanced c (directive inner place .start (placed (keyword o.word)))
      (o.arguments.map placed ++ placed closeTag :: laid segments)
      fun node rest => ∃ after, Opens o segments node after ∧
        rest = placed closeTag :: laid after := by
  cases o with
  | choice e => exact choiceDirective_decides place hinner hlength e
  | loop x e => exact loopDirective_decides place hinner hlength x e
  | fragment e => exact fragmentDirective_decides place hinner hlength e
  | autoescape enabled => exact autoescapeDirective_decides place hinner hlength enabled

end Directives

/-! ### Bodies -/

section Bodies

variable {c : Cursor} {inner : BodyParser} {n : Nat} {segments : List Segment} (place : Place)
  (expected : List String)

/-- A body under way. -/
structure Body.Open (b : Body) : Prop where
  closer : b.closer = none
  child : b.child = false

theorem bodyStep_text {b : Body} (hb : b.Open) (t : PlainText) (segments : List Segment)
    (inner : BodyParser) (c : Cursor) :
    ∃ b' : Body, b'.Open ∧ b'.nodes = b.nodes ++ [.text .start t.text] ∧
      Gives (bodyStep inner place expected b) (c.before (laid (.text t :: segments))) (some b')
        (c.before (laid segments)) := by
  obtain ⟨nodes, started, child, closer⟩ := b
  obtain ⟨rfl, rfl⟩ := hb
  let b' : Body := ⟨nodes ++ [.text .start t.text], started || !t.text.toList.all Text.isBlank,
    false, none⟩
  exact ⟨b', ⟨rfl, rfl⟩, rfl, rfl⟩

theorem bodyStep_statement {b : Body} (hb : b.Open) {ts : List Token}
    {good : Body → List Token → Prop}
    (h : Decides Unbalanced c (statement inner place expected b) ts good) :
    Decides Unbalanced c (bodyStep inner place expected b)
      (placed (.openStatement, "\x7b%") :: ts) fun found rest => ∃ b', good b' rest ∧ found = some b' := by
  have hmap := h.map some
  rw [← map_eq_pure_bind] at hmap
  obtain ⟨nodes, started, child, closer⟩ := b
  obtain ⟨rfl, rfl⟩ := hb
  exact ⟨hmap.accepts, hmap.refuses⟩

theorem bodyStep_closing {b : Body} (hb : b.Open) (k : Closing) :
    Decides Unbalanced c (bodyStep inner place expected b) (laid (.closing k :: segments))
      fun found rest => k.word ∈ expected ∧ found = some { b with closer := some k.word } ∧
        rest = behind k segments := by
  have hstatement : Decides Unbalanced c (statement inner place expected b)
      (placed (keyword k.word) :: behind k segments) fun found rest => k.word ∈ expected ∧
        found = { b with closer := some k.word } ∧ rest = behind k segments := by
    refine .after peek_before ?_
    dsimp only [placed, keyword]
    by_cases hk : k.word ∈ expected
    · rw [if_pos (List.contains_iff_mem.mpr hk)]
      refine .after next_gives ((Decides.pure _).congr fun found rest => ?_)
      simp [hk]
    · have hcloser : closers.contains k.word := by
        cases k <;> rfl
      rw [if_neg (mt List.contains_iff_mem.mp hk), if_pos hcloser]
      exact .error rfl ⟨_, _, _, rfl⟩ fun _ _ h => hk h.1
  rw [laid_closing]
  refine (bodyStep_statement place expected hb hstatement).congr fun found rest => ?_
  constructor
  · rintro ⟨_, ⟨hk, rfl, hrest⟩, rfl⟩
    exact ⟨hk, rfl, hrest⟩
  · rintro ⟨hk, rfl, hrest⟩
    exact ⟨_, ⟨hk, rfl, hrest⟩, rfl⟩

theorem innerStatement_opening (inner : BodyParser) {b : Body} (hb : b.Open) (o : Opening) :
    innerStatement inner place b (placed (keyword o.word)) = (do
      let _ ← next
      let node ← directive inner place .start (placed (keyword o.word))
      closing
      return { b.push node with started := true }) := by
  have hextends : (placed (keyword o.word)).isKeyword "extends" = false := by
    cases o <;> rfl
  simp only [innerStatement, hb.child, Bool.false_and, Bool.false_eq_true, if_false, hextends,
    pure_bind]
  rfl

theorem bodyStep_opening (hinner : Nests c inner n) (hlength : segments.length < n)
    (hexpected : expected ⊆ closers) {b : Body} (hb : b.Open) (o : Opening) :
    Decides Unbalanced c (bodyStep inner place expected b) (laid (.opening o :: segments))
      fun found rest => ∃ i : Node × List Segment, Opens o segments i.1 i.2 ∧
        found = some { b.push i.1 with started := true } ∧ rest = laid i.2 := by
  have hcloser : o.word ∉ closers := by
    cases o <;> simp [Opening.word, closers]
  have hword : o.word ∉ expected := fun h => hcloser (hexpected h)
  have hstatement : Decides Unbalanced c (statement inner place expected b)
      (placed (keyword o.word) :: (o.arguments.map placed ++ placed closeTag :: laid segments))
      fun found rest => ∃ i : Node × List Segment, Opens o segments i.1 i.2 ∧
        found = { b.push i.1 with started := true } ∧ rest = laid i.2 := by
    refine .after peek_before ?_
    dsimp only [placed, keyword]
    rw [if_neg (mt List.contains_iff_mem.mp hword), if_neg (mt List.contains_iff_mem.mp hcloser)]
    have hinside := innerStatement_opening place inner hb o
    rw [placed, keyword] at hinside
    rw [hinside]
    refine .after next_gives ?_
    have hdirective : Decides Unbalanced c
        (directive inner place .start (placed (keyword o.word)))
        (o.arguments.map placed ++ placed closeTag :: laid segments)
        fun node us => ∃ i : Node × List Segment, Opens o segments i.1 i.2 ∧ node = i.1 ∧
          us = placed closeTag :: laid i.2 := by
      refine (directive_decides place hinner hlength o).congr fun node us => ?_
      constructor
      · rintro ⟨after, hopens, hus⟩
        exact ⟨(node, after), hopens, rfl, hus⟩
      · rintro ⟨⟨_, after⟩, hopens, rfl, hus⟩
        exact ⟨after, hopens, hus⟩
    refine (hdirective.bind (fun i found rest =>
      found = { b.push i.1 with started := true } ∧ rest = laid i.2) ?_).congr fun found rest => ?_
    · rintro i _ _ ⟨-, rfl, rfl⟩
      exact .after (closing_gives c _) (.pure _)
    constructor
    · rintro ⟨i, ⟨_, _, hopens, -⟩, hfound⟩
      exact ⟨i, hopens, hfound⟩
    · rintro ⟨i, hopens, hfound⟩
      exact ⟨i, ⟨_, _, hopens, rfl, rfl⟩, hfound⟩
  rw [laid_opening]
  refine (bodyStep_statement place expected hb hstatement).congr fun found rest => ?_
  constructor
  · rintro ⟨_, ⟨i, hopens, rfl, hrest⟩, rfl⟩
    exact ⟨i, hopens, rfl, hrest⟩
  · rintro ⟨i, hopens, rfl, hrest⟩
    exact ⟨_, ⟨i, hopens, rfl, hrest⟩, rfl⟩

theorem iterate_closed (inner : BodyParser) (fuel : Nat) {b : Body} (hb : b.closer.isSome)
    (c : Cursor) : Gives (iterate (bodyStep inner place expected) fuel b) c b c := by
  have hstep : Gives (bodyStep inner place expected b) c none c := by
    rw [bodyStep, if_pos hb]
    exact .pure none c
  cases fuel with
  | zero => exact .pure b c
  | succ fuel => exact hstep.bind (.pure b c)

theorem bodyStep_end (hc : c.tokens = []) (hf : c.fault = none) {b : Body} (hb : b.Open) :
    Decides Unbalanced c (bodyStep inner place expected b) [] fun found rest =>
      expected = [] ∧ found = none ∧ rest = [] := by
  obtain ⟨tokens, fault, stop⟩ := c
  obtain ⟨nodes, started, child, closer⟩ := b
  obtain ⟨rfl, rfl⟩ := hb
  obtain rfl : tokens = [] := hc
  obtain rfl : fault = none := hf
  cases hlast : expected.getLast? with
  | none =>
    obtain rfl := List.getLast?_eq_none_iff.mp hlast
    have hnone : Gives (bodyStep inner place [] ⟨nodes, started, false, none⟩)
        (Cursor.before [] ⟨[], none, stop⟩) none (Cursor.before [] ⟨[], none, stop⟩) := rfl
    refine (Decides.of_gives hnone).congr fun found rest => ?_
    simp
  | some closer =>
    have hne : expected ≠ [] := by
      rintro rfl
      cases hlast
    have hfinished : finished expected = (do
        throw (.unbalancedBlock (← Parse.position) closer endTemplate)) := by
      rw [finished, hlast]
    have hnext : Gives next (Cursor.before [] ⟨[], none, stop⟩) none
        (Cursor.before [] ⟨[], none, stop⟩) := rfl
    refine .after hnext ?_
    dsimp only
    rw [hfinished]
    exact .error rfl ⟨_, _, _, rfl⟩ fun _ _ h => hne h.1

/-- What is made of a body when it ends, from its nodes and the word that ends it. -/
theorem body_decides {α : Type} (hc : c.tokens = []) (hf : c.fault = none)
    (hinner : Nests c inner n) (hexpected : expected ⊆ closers)
    (result : List Node → Option String → α)
    (fuel : Nat) (hfuel : segments.length < fuel) (hlength : segments.length ≤ n) {b : Body}
    (hb : b.Open) :
    Decides Unbalanced c
      (iterate (bodyStep inner place expected) fuel b >>= fun b => pure (result b.nodes b.closer))
      (laid segments)
      fun found rest => ∃ nodes closer, Ends expected segments nodes closer rest ∧
        found = result (b.nodes ++ nodes) closer := by
  induction fuel generalizing segments b with
  | zero => exact absurd hfuel (Nat.not_lt_zero _)
  | succ fuel ih =>
    rw [iterate, bind_assoc]
    cases segments with
    | nil =>
      have hstep : Decides Unbalanced c (bodyStep inner place expected b) [] fun found us =>
          ∃ _ : Unit, expected = [] ∧ found = none ∧ us = [] :=
        (bodyStep_end place expected hc hf hb).congr fun _ _ => (exists_const _).symm
      refine (hstep.bind (fun _ found rest => found = result b.nodes b.closer ∧ rest = [])
        ?_).congr fun found rest => ?_
      · rintro _ _ _ ⟨-, rfl, rfl⟩
        exact .pure _
      · constructor
        · rintro ⟨_, ⟨_, _, hexpected, -⟩, rfl, rfl⟩
          exact ⟨[], none, ends_nil_iff.mpr ⟨hexpected, rfl, rfl, rfl⟩, by simp [hb.closer]⟩
        · rintro ⟨_, _, hends, rfl⟩
          obtain ⟨hexpected, rfl, rfl, rfl⟩ := ends_nil_iff.mp hends
          exact ⟨(), ⟨none, [], hexpected, rfl, rfl⟩, by simp [hb.closer], rfl⟩
    | cons s segments =>
      simp only [List.length_cons] at hfuel hlength
      cases s with
      | text t =>
        obtain ⟨b', hb', hnodes, hstep⟩ := bodyStep_text place expected hb t segments inner c
        refine (Decides.after hstep (ih (by omega) (by omega) hb')).congr fun found rest => ?_
        constructor
        · rintro ⟨nodes, closer, hends, rfl⟩
          exact ⟨_, closer, ends_text_iff.mpr ⟨nodes, rfl, hends⟩, by simp [hnodes]⟩
        · rintro ⟨_, closer, hends, rfl⟩
          obtain ⟨nodes, rfl, hrest⟩ := ends_text_iff.mp hends
          exact ⟨nodes, closer, hrest, by simp [hnodes]⟩
      | closing k =>
        have hstep : Decides Unbalanced c (bodyStep inner place expected b)
            (laid (.closing k :: segments)) fun found us => ∃ _ : Unit, k.word ∈ expected ∧
              found = some { b with closer := some k.word } ∧ us = behind k segments :=
          (bodyStep_closing place expected hb k).congr fun _ _ => (exists_const _).symm
        refine (hstep.bind (fun _ found rest => found = result b.nodes (some k.word) ∧
          rest = behind k segments) ?_).congr fun found rest => ?_
        · rintro _ _ _ ⟨-, rfl, rfl⟩
          exact .after (iterate_closed place expected inner fuel rfl _) (.pure _)
        · constructor
          · rintro ⟨_, ⟨_, _, hk, -⟩, rfl, rfl⟩
            exact ⟨[], some k.word, ends_closing_iff.mpr ⟨hk, rfl, rfl, rfl⟩, by simp⟩
          · rintro ⟨_, _, hends, rfl⟩
            obtain ⟨hk, rfl, rfl, rfl⟩ := ends_closing_iff.mp hends
            exact ⟨(), ⟨_, _, hk, rfl, rfl⟩, by simp, rfl⟩
      | opening o =>
        refine ((bodyStep_opening place expected hinner (by omega) hexpected hb o).bind
          (fun i found rest => ∃ nodes closer, Ends expected i.2 nodes closer rest ∧
            found = result (b.nodes ++ i.1 :: nodes) closer) ?_).congr fun found rest => ?_
        · rintro ⟨node, after⟩ _ _ ⟨⟨inside, rfl, -⟩, rfl, rfl⟩
          simp only [List.length_append] at hfuel hlength
          have hpush : Body.Open { b.push node with started := true } := ⟨hb.closer, hb.child⟩
          have hafter : after.length < fuel ∧ after.length ≤ n := by omega
          refine (ih hafter.1 hafter.2 hpush).congr fun found rest => ?_
          simp [Body.push]
        · constructor
          · rintro ⟨⟨node, after⟩, ⟨_, _, hopens, -⟩, nodes, closer, hends, rfl⟩
            exact ⟨_, closer, ends_opening_iff.mpr ⟨node, after, nodes, hopens, rfl, hends⟩, rfl⟩
          · rintro ⟨_, closer, hends, rfl⟩
            obtain ⟨node, after, nodes, hopens, rfl, hrest⟩ := ends_opening_iff.mp hends
            exact ⟨(node, after), ⟨_, _, hopens, rfl, rfl⟩, nodes, closer, hrest, rfl⟩

end Bodies

/-! ### Templates -/

theorem nests_bodyTo {c : Cursor} (hc : c.tokens = []) (hf : c.fault = none) (depth : Nat) :
    Nests c (bodyTo depth) depth := by
  induction depth with
  | zero => exact fun _ _ segments _ _ hlength => absurd hlength (Nat.not_lt_zero _)
  | succ depth ih =>
    intro place expected segments hne hexpected hlength
    have hfuel : segments.length < (laid segments ++ c.tokens).length + 1 := by
      have hlaid := length_le_laid segments
      rw [List.length_append]
      omega
    have hbody := body_decides place expected hc hf ih hexpected (fun nodes closer =>
      (nodes, closer.getD "")) _ hfuel (Nat.le_of_lt_succ hlength) (b := .nested) ⟨rfl, rfl⟩
    refine hbody.whileSome.congr fun found rest => ?_
    constructor
    · rintro ⟨nodes, closer, ⟨cut, hcut, rfl, rfl, hrest⟩ | ⟨hnone, -⟩, rfl⟩
      · exact ⟨cut, hcut, rfl, hrest⟩
      · exact absurd hnone hne
    · rintro ⟨cut, hcut, rfl, hrest⟩
      exact ⟨cut.nodes, some cut.closing.word, .inl ⟨cut, hcut, rfl, rfl, hrest⟩, rfl⟩

theorem topLevel_decides {c : Cursor} (hc : c.tokens = []) (hf : c.fault = none)
    (segments : List Segment) :
    Decides Unbalanced c topLevel (laid segments) fun nodes rest =>
      IsBody segments nodes ∧ rest = [] := by
  have hrun : topLevel (c.before (laid segments)) = (Body.nodes <$> whileSome
      (bodyStep (bodyTo ((laid segments ++ c.tokens).length + 1)) ⟨false, false⟩ []) .top)
      (c.before (laid segments)) := by
    rw [topLevel, Cursor.tokens_before]
  have hfuel : segments.length < (laid segments ++ c.tokens).length + 1 := by
    have hlaid := length_le_laid segments
    rw [List.length_append]
    omega
  have hbody := body_decides ⟨false, false⟩ [] hc hf (nests_bodyTo hc hf _) (by simp)
    (fun nodes _ => nodes) _ hfuel (Nat.le_of_lt hfuel) (b := .top) ⟨rfl, rfl⟩
  have hlevel := hbody.whileSome
  rw [← map_eq_pure_bind] at hlevel
  constructor
  · rintro nodes rest ⟨h, rfl⟩
    have hends : Ends [] segments nodes none [] := .inr ⟨rfl, h, rfl, rfl⟩
    rw [Gives, hrun]
    exact hlevel.accepts ⟨nodes, none, hends, rfl⟩
  · intro hnone
    rw [hrun]
    refine hlevel.refuses ?_
    rintro _ rest ⟨nodes, closer, ⟨cut, hcut, -⟩ | ⟨-, h, -, hrest⟩, rfl⟩
    · cases hcut.expected
    · exact hnone _ rest ⟨h, hrest⟩

def unplaced (nodes : List Node) : List Node :=
  relocateNodes (fun _ => .start) nodes

theorem tokensAlike_placed (dot : Bool) (ts : List Token) :
    TokensAlike (fun _ => .start) true dot ts ((ts.map Token.piece).map placed) := by
  induction ts generalizing dot with
  | nil => exact .nil
  | cons token ts ih => exact .cons ⟨rfl, rfl, fun _ => rfl⟩ (ih _)

theorem source_alike (segments : List Segment) :
    (Cursor.ofSource table (source segments)).Alike (fun _ => .start) true
      (Cursor.before (laid (joined segments)) ⟨[], none, .start⟩) := by
  obtain ⟨htokens, hfault⟩ := scan_source segments
  refine ⟨false, ?_, ?_, ?_, fun _ => rfl⟩
  · rw [Cursor.tokens_before, List.append_nil, laid, ← htokens]
    exact tokensAlike_placed _ _
  · simp [Cursor.ofSource, hfault]
  · intro e he
    have hnone : (Cursor.ofSource table (source segments)).fault = none := hfault
    rw [hnone] at he
    cases he

theorem Unbalanced.of_relocate {f : Position → Position} {e : CompileError}
    (h : Unbalanced (e.relocate f)) : Unbalanced e := by
  obtain ⟨position, closer, found, h⟩ := h
  cases e with
  | unbalancedBlock p closer found => exact ⟨p, closer, found, rfl⟩
  | _ => cases h

/-- A template of text and blocks is accepted if it derives from the grammar, with the tree of the
derivation, and else a block is unbalanced. -/
theorem parse_blocks (segments : List Segment) :
    (∀ nodes, (parse (source segments)).map unplaced = .ok nodes ↔
      IsBody (joined segments) nodes) ∧
    ((∃ nodes, IsBody (joined segments) nodes) ∨ ∃ position closer found,
      parse (source segments) = .error (.unbalancedBlock position closer found)) := by
  let c : Cursor := ⟨[], none, .start⟩
  have hlevel : Decides Unbalanced c topLevel (laid (joined segments)) fun nodes rest =>
      IsBody (joined segments) nodes ∧ rest = [] := topLevel_decides rfl rfl (joined segments)
  have hrun := topLevel_relocates.run _ _ (source_alike segments)
  unfold parse Parse.run?
  generalize topLevel (Cursor.ofSource table (source segments)) = x at hrun ⊢
  generalize hlaid : topLevel (c.before (laid (joined segments))) = y at hrun
  cases hrun with
  | ok heq _ =>
    subst heq
    obtain ⟨_, ⟨hbody, -⟩, -⟩ := hlevel.good_of_gives hlaid
    refine ⟨fun nodes => ⟨?_, fun h => ?_⟩, .inl ⟨_, hbody⟩⟩
    · rintro ⟨⟩
      exact hbody
    · have hok := hlaid.symm.trans (hlevel.accepts ⟨h, rfl⟩)
      cases hok
      rfl
  | error _ =>
    have hnone (nodes : List Node) : ¬ IsBody (joined segments) nodes := fun h => by
      have hok := hlaid.symm.trans (hlevel.accepts ⟨h, rfl⟩)
      cases hok
    refine ⟨fun nodes => ⟨nofun, fun h => absurd h (hnone nodes)⟩, .inr ?_⟩
    obtain ⟨e, d, herror, hunbalanced⟩ := hlevel.refuses fun nodes _ h => hnone nodes h.1
    have heq := hlaid.symm.trans herror
    cases heq
    obtain ⟨position, closer, found, rfl⟩ := hunbalanced.of_relocate
    exact ⟨position, closer, found, rfl⟩

/-- A branch around a text that is put together from two, and an empty `else`. -/
theorem parse_blocks_choice :
    let name : Name := ⟨"a", by decide, by decide⟩
    (parse "\x7b% if a %\x7dbc\x7b% else %\x7d\x7b% endif %\x7d").map unplaced =
      .ok [.choice .start [⟨name.expr, [.text .start "bc"]⟩] (some [])] := by
  intro name
  let b : PlainText := ⟨"b", by decide⟩
  let c : PlainText := ⟨"c", by decide⟩
  let segments : List Segment := [.opening (.choice name), .text b, .text c, .closing .otherwise,
    .closing .endif]
  have hsource : source segments = "\x7b% if a %\x7dbc\x7b% else %\x7d\x7b% endif %\x7d" := by
    decide +kernel
  have hjoined : joined segments = .opening (.choice name) ::
      (([.text (b.append c)] ++ .closing .otherwise :: ([] ++ [.closing .endif])) ++ []) := rfl
  have htext : (b.append c).text = "bc" := by decide
  have hbody : IsBody (joined segments)
      [.choice .start [⟨name.expr, [.text .start "bc"]⟩] (some [])] := by
    rw [hjoined, ← htext]
    exact .block (.choice (.text .nil) (.otherwise .nil)) .nil
  rw [← hsource]
  exact ((parse_blocks segments).1 _).mpr hbody

end EmbeddedLang.Template
