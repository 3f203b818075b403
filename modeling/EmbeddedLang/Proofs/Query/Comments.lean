import EmbeddedLang.Proofs.Query.Beginnings

/-!
SQL opens a comment only where a minus sign stands directly before another one.
-/

namespace EmbeddedLang.Query

def commentAhead (c : Char) (rest : List Char) : Bool :=
  c == '-' && rest.head? == some '-' || c == '/' && rest.head? == some '*'

namespace Quotes

/-- Outside of quoted identifiers, a comment begins in what is left to read. -/
def opensComment (q : Quotes) : Reading → List Char → Bool
  | _, [] => false
  | .outside, c :: rest =>
    if c = q.opening then q.opensComment .inside rest
    else commentAhead c rest || q.opensComment .outside rest
  | .inside, c :: rest =>
    if c = q.closing then q.opensComment .closed rest else q.opensComment .inside rest
  | .closed, c :: rest =>
    if c = q.closing then q.opensComment .inside rest
    else if c = q.opening then q.opensComment .inside rest
    else commentAhead c rest || q.opensComment .outside rest

def hasComment (q : Quotes) (sql : String) : Bool :=
  q.opensComment .outside sql.toList

variable {q : Quotes}

theorem opensComment_closed (hq : q.opening = q.closing) (cs : List Char) :
    q.opensComment .closed cs = q.opensComment .outside cs := by
  cases cs with
  | nil => rfl
  | cons c rest =>
    rw [opensComment, opensComment, hq]
    split <;> rfl

theorem opensComment_double (cs rest : List Char) :
    q.opensComment .inside (q.double cs ++ q.closing :: rest) = q.opensComment .closed rest := by
  induction cs with
  | nil => rw [double, List.nil_append, opensComment, if_pos rfl]
  | cons c cs ih =>
    rw [double]
    split
    · rename_i hc
      rw [List.cons_append, List.cons_append, opensComment, if_pos hc, opensComment, if_pos hc, ih]
    · rename_i hc
      rw [List.cons_append, opensComment, if_neg hc, ih]

/-- A reader that has read the text outside of identifiers is outside again, and has not met half of
a comment mark. -/
def Calm (q : Quotes) (s : String) : Prop :=
  ∀ rest, q.opensComment .outside (s.toList ++ rest) = q.opensComment .outside rest

theorem commentAhead_spaced {c : Char} {cs : List Char} (h : spaced (c :: cs))
    (rest : List Char) : commentAhead c (cs ++ rest) = false := by
  rcases Bool.or_eq_true_iff.mp (Bool.and_eq_true_iff.mp h).1 with hc | hspace
  · simp only [Bool.and_eq_true, bne_iff_ne] at hc
    simp [commentAhead, hc]
  · have hnext : (cs ++ rest).head? = some ' ' := by
      rw [List.head?_append, beq_iff_eq.mp hspace]
      rfl
    simp [commentAhead, hnext]

namespace Calm

variable {a b s : String}

theorem nil : q.Calm "" :=
  fun _ => rfl

theorem append (ha : q.Calm a) (hb : q.Calm b) : q.Calm (a ++ b) := by
  intro rest
  rw [String.toList_append, List.append_assoc, ha, hb]

theorem of_spaced (h : spaced s.toList) (hq : q.opening ∉ s.toList) : q.Calm s := by
  intro rest
  generalize s.toList = cs at h hq
  induction cs with
  | nil => rfl
  | cons c cs ih =>
    obtain ⟨hc, hcs⟩ := not_or.mp (mt List.mem_cons.mpr hq)
    have hrest := (Bool.and_eq_true_iff.mp h).2
    rw [List.cons_append, opensComment, if_neg (Ne.symm hc), commentAhead_spaced h, Bool.false_or,
      ih hrest hcs]

theorem quote (hq : q.opening = q.closing) (identifier : String) :
    q.Calm (q.quote identifier) := by
  intro rest
  rw [Quotes.quote, String.toList_ofList, List.append_assoc, List.cons_append, opensComment,
    if_pos rfl, List.singleton_append, opensComment_double, opensComment_closed hq]

/-- A minus sign may stand before a text that does not begin with one. -/
theorem minus (hq : q.opening ≠ '-') (ha : q.Calm a) (hhead : a.toList.head?.any (· != '-')) :
    q.Calm ("-" ++ a) := by
  intro rest
  have hmark : commentAhead '-' (a.toList ++ rest) = false := by
    cases hcs : a.toList with
    | nil =>
      rw [hcs] at hhead
      cases hhead
    | cons c cs =>
      rw [hcs] at hhead
      have hc : c ≠ '-' := bne_iff_ne.mp hhead
      simp [commentAhead, hc]
  have hdash : "-".toList = ['-'] := by decide
  rw [String.toList_append, hdash, List.append_assoc, List.singleton_append, opensComment,
    if_neg (Ne.symm hq), hmark, Bool.false_or, ha]

theorem hasComment (h : q.Calm s) : q.hasComment s = false := by
  have hs := h []
  rw [List.append_nil] at hs
  exact hs

end Calm

end Quotes

/-! ### Dialects -/

theorem spaced_of_plain {cs : List Char} (h : cs.all isPlainChar) : spaced cs := by
  induction cs with
  | nil => rfl
  | cons c cs ih =>
    obtain ⟨hc, hcs⟩ := Bool.and_eq_true_iff.mp h
    have hne (sign : Char) (hsign : isPlainChar sign = false) : c ≠ sign := by
      rintro rfl
      exact Bool.false_ne_true (hsign.symm.trans hc)
    have hminus := hne '-' (by decide)
    have hslash := hne '/' (by decide)
    simp [spaced, hminus, hslash, ih hcs]

namespace Dialect.Signs

variable {d : Dialect} (h : d.Signs)

include h

theorem calm_plain {s : String} (hs : s.toList.all isPlainChar) : d.quotes.Calm s :=
  .of_spaced (spaced_of_plain hs) (h.not_mem hs)

theorem calm_source (x : ScopeSource) : d.quotes.Calm (d.quotes.source x) := by
  unfold Quotes.source
  cases x.aliasName with
  | none => exact .quote h.marks _
  | some aliasName =>
    refine .append (.append (.quote h.marks _) ?_) (.quote h.marks _)
    exact h.calm_plain (by decide)

theorem calm_column (r : Reference) : d.quotes.Calm (d.quotes.column r) := by
  unfold Quotes.column
  split
  · refine .append (.append (.quote h.marks _) ?_) (.quote h.marks _)
    exact h.calm_plain (by decide)
  · exact .quote h.marks _

theorem calm_placeholder (index : Nat) (source : BindSource) :
    d.quotes.Calm (d.style.placeholder index source) := by
  refine .of_spaced (spaced_of_plain ?_) (h.placeholder index source)
  cases hs : d.style with
  | question => exact (by decide : "?".toList.all isPlainChar)
  | numbered =>
    have hindex : (toString index).toList.all isPlainChar := List.all_eq_true.mpr fun c hc =>
      isPlainChar_of_isWordChar (isWordChar_of_isDigit (isDigit_of_mem_toString hc))
    change ("$" ++ toString index).toList.all isPlainChar
    rw [String.toList_append, List.all_append, hindex]
    decide
  | named => exact absurd hs h.style

theorem calm_cast {a target : String} (ha : d.quotes.Calm a) (ht : IsType target) :
    d.quotes.Calm ("CAST(" ++ a ++ " AS " ++ target ++ ")") := by
  obtain ⟨name, hname, htext⟩ := ht
  have htarget := h.calm_plain (htext.all_isPlainChar hname)
  have hopen : d.quotes.Calm "CAST(" := h.calm_plain (by decide)
  have has : d.quotes.Calm " AS " := h.calm_plain (by decide)
  exact (((hopen.append ha).append has).append htarget).append (h.calm_plain (by decide))

end Dialect.Signs

/-! ### Statements -/

open Fragment in
def Target.calming {t : Target} (h : t.dialect.Signs) : t.Invariant where
  joinsOnce := h.joinsOnce
  Holds _ _ f := ∀ index, t.dialect.quotes.Calm (f.finishFrom t.dialect.style index).1
  Admits e := e.CastsTo IsType ∧ e.doublesMinus = false
  Free c := c ≠ .unary .neg
  free _ hc := hc
  nil _ _ := .nil
  append hf hg index := by
    rw [finishFrom_append]
    exact (hf index).append (hg _)
  word _ hs index := by
    rw [finishFrom_singleton _ _ rfl]
    exact h.calm_plain (isPlainChar_of_words _ hs)
  template _ hc ht hs index := by
    rw [finishFrom_text]
    exact .of_spaced (h.spaced hc ht hs) (h.template ht hs)
  negated {p x} hx := .inr fun {scopes hint f} hf hcalm => by
    apply (h.render_neg f p).imp
    rintro _ rfl index
    have hhead := (Target.expr_begins h scopes hint x hx.2).of_ok f hf
    rw [finishFrom_append, finishFrom_text]
    exact .minus h.opening (hcalm _) (hhead _)
  name _ identifier index := by
    rw [Target.name, Fragment.name, finishFrom_singleton _ _ rfl]
    exact .quote h.marks identifier
  source _ x index := by
    rw [Fragment.source, finishFrom_singleton _ _ rfl]
    exact h.calm_source x
  column _ index := by
    rw [Fragment.column, finishFrom_singleton _ _ rfl]
    exact h.calm_column _
  bind _ source type index := by
    rw [Fragment.bind, finishFrom_bind]
    exact (h.calm_placeholder index source).append .nil
  cast hf ht index := by
    simp only [finishFrom_append, finishFrom_text]
    exact h.calm_cast (hf _) ht.1
  enclosed _ hf index := by
    rw [finishFrom_enclosed]
    exact hf index

open Fragment in
theorem Target.statement_calm {t : Target} (h : t.dialect.Signs) {s : Statement} {f : Fragment}
    (hf : t.statement s = .ok f) (hs : (calming h).Admitted s.nodes) :
    t.dialect.quotes.Calm (f.finish t.dialect.style).1 := by
  cases s with
  | select s => exact ((calming h).select [] s hs).of_ok f hf 1
  | insert s =>
    obtain ⟨_, _, hs⟩ := ((calming h).insert s hs).of_ok f hf
    exact hs 1
  | update s =>
    obtain ⟨_, _, body, rfl, hs⟩ := ((calming h).update s hs).of_ok f hf
    rw [finish, finishFrom_enclosed]
    exact hs 1
  | delete s =>
    obtain ⟨_, _, body, rfl, hs⟩ := ((calming h).delete s hs).of_ok f hf
    rw [finish, finishFrom_enclosed]
    exact hs 1
  | empty =>
    cases hf
    exact .nil

/-- SQL has no comments if no minus sign stands directly before another, and all casts are to types
of the usual shape. -/
theorem lower_uncommented {m : Metadata} {name : String} {d : Dialect} {s : Statement}
    {q : CompiledQuery} (hd : Dialect.byName? name = some d)
    (hcasts : ∀ target ∈ s.castTargets, IsType target)
    (hminus : ∀ n ∈ s.nodes, n.doublesMinus = false) (h : lower m d s = .ok q) :
    d.quotes.hasComment q.sql = false := by
  have hsigns := Dialect.signs hd
  obtain ⟨f, hf, rfl⟩ := lower_eq_ok_iff.mp h
  have hcast := (castTo_statement s).mpr hcasts
  exact (Target.statement_calm hsigns hf fun n hn => ⟨hcast n hn, hminus n hn⟩).hasComment

theorem byName?_generic : Dialect.byName? "generic" = some .generic := by
  have hname : lowerAscii "generic" = "generic" := by decide +kernel
  unfold Dialect.byName?
  rw [hname]
  rfl

/-- Signs after each other, with a space or a parenthesis between any two of them. -/
def balances : String :=
  "SELECT born - -(-born), -2 * -born / +born FROM Author WHERE -born IS NULL LIMIT 1"

theorem lower_uncommented_balances : Dialect.byName? "generic" = some .generic ∧
    ∃ s q, parse balances = .ok s ∧ lower library .generic s = .ok q ∧
      Dialect.generic.quotes.hasComment q.sql = false := by
  have hs : (parse balances).toOption.any fun s => s.castTargets.isEmpty &&
      s.nodes.all (!·.doublesMinus) && (lower library .generic s).toOption.isSome := by
    decide +kernel
  obtain ⟨s, hparse, hs⟩ := exists_ok_of_any hs
  obtain ⟨hs, hlower⟩ := Bool.and_eq_true_iff.mp hs
  obtain ⟨hempty, hminus⟩ := Bool.and_eq_true_iff.mp hs
  obtain ⟨q, h⟩ := exists_ok_of_isSome hlower
  have hcasts : ∀ target ∈ s.castTargets, IsType target :=
    List.isEmpty_iff.mp hempty ▸ List.forall_mem_nil _
  have hnodes : ∀ n ∈ s.nodes, n.doublesMinus = false := by simpa using hminus
  exact ⟨byName?_generic, s, q, hparse, h, lower_uncommented byName?_generic hcasts hnodes h⟩

/-- Without a space between them two minus signs open a comment. -/
theorem negated_twice_commented : Dialect.byName? "generic" = some .generic ∧
    ∃ s q, parse "SELECT - - born FROM Author" = .ok s ∧ s.castTargets = [] ∧
      lower library .generic s = .ok q ∧ Dialect.generic.quotes.hasComment q.sql = true := by
  have hs : (parse "SELECT - - born FROM Author").toOption.any fun s => s.castTargets.isEmpty &&
      (lower library .generic s).toOption.any (Dialect.generic.quotes.hasComment ·.sql) := by
    decide +kernel
  obtain ⟨s, hparse, hs⟩ := exists_ok_of_any hs
  obtain ⟨hempty, hlower⟩ := Bool.and_eq_true_iff.mp hs
  obtain ⟨q, h, hcomment⟩ := exists_ok_of_any hlower
  exact ⟨byName?_generic, s, q, hparse, List.isEmpty_iff.mp hempty, h, hcomment⟩

end EmbeddedLang.Query
