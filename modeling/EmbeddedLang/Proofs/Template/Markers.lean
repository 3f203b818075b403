import EmbeddedLang.Proofs.Lexical.Ahead
import EmbeddedLang.Template.Grammar

/-!
Where code begins in the text of a template, and where it ends again.
-/

namespace EmbeddedLang.Template

variable {c m : Char} {cs : List Char}

/-! ### Opening markers -/

/-- No opening marker begins in these characters when others follow them. -/
def Unopened (cs rest : List Char) : Prop :=
  ∀ m ∈ ['%', '\x7b', '#'], ¬ ['\x7b', m] <:+: cs ++ rest.take 1

instance (cs rest : List Char) : Decidable (Unopened cs rest) :=
  @List.decidableBAll _ _
    (fun _ => @instDecidableNot _ (List.instDecidableIsInfixOfDecidableEq _ _)) _

theorem Unopened.of_not_mem (h : '\x7b' ∉ cs) (rest : List Char) : Unopened cs rest := by
  intro m _ hinfix
  induction cs with
  | nil =>
    have hlength := hinfix.length_le
    simp only [List.length_cons, List.nil_append, List.length_take] at hlength
    omega
  | cons d cs ih =>
    obtain ⟨hd, hcs⟩ := not_or.mp (mt List.mem_cons.mpr h)
    rcases List.infix_cons_iff.mp hinfix with hprefix | htail
    · exact hd (List.cons_prefix_cons.mp hprefix).1
    · exact ih hcs htail

/-- A pair of characters that begins in front of others is found there. -/
theorem infix_of_prefix_append {rest : List Char} (h : [c, m] <+: cs ++ rest) (hne : cs ≠ []) :
    [c, m] <:+: cs ++ rest.take 1 := by
  match cs, hne with
  | [d], _ =>
    obtain ⟨rfl, hm⟩ := List.cons_prefix_cons.mp h
    obtain ⟨after, rfl⟩ := hm
    exact List.infix_rfl
  | d :: e :: cs, _ =>
    obtain ⟨rfl, hm⟩ := List.cons_prefix_cons.mp h
    obtain ⟨rfl, -⟩ := List.cons_prefix_cons.mp hm
    exact (List.prefix_append [c, m] _).isInfix

theorem indexOf_append {rest : List Char} (h : ¬ [c, m] <:+: cs ++ rest.take 1) :
    Text.indexOf [c, m] (cs ++ rest) = (Text.indexOf [c, m] rest).map (· + cs.length) := by
  induction cs with
  | nil => simp
  | cons d cs ih =>
    have hdiffers : [c, m].isPrefixOf (d :: (cs ++ rest)) = false := by
      rw [← Bool.not_eq_true, List.isPrefixOf_iff_prefix]
      exact fun hprefix => h (infix_of_prefix_append hprefix (List.cons_ne_nil d cs))
    have htail : ¬ [c, m] <:+: cs ++ rest.take 1 := fun hinfix => h (List.infix_cons hinfix)
    rw [List.cons_append, Text.indexOf, hdiffers, ih htail]
    simp [Function.comp_def, Nat.add_assoc]

/-- The marker that begins first, or the former one if both begin at one place. -/
def earlier (best : Option (Nat × String)) (marker : String) (found : Option Nat) :
    Option (Nat × String) :=
  match best, found with
  | some (n, first), some m => if m < n then some (m, marker) else some (n, first)
  | some best, none => some best
  | none, found => found.map fun m => (m, marker)

theorem firstOpener_eq (rest : List Char) : firstOpener .braces rest =
    earlier (earlier (earlier none "\x7b%" (Text.indexOf "\x7b%".toList rest))
      "\x7b\x7b" (Text.indexOf "\x7b\x7b".toList rest))
      "\x7b#" (Text.indexOf "\x7b#".toList rest) :=
  rfl

theorem earlier_zero (first marker : String) (found : Option Nat) :
    earlier (some (0, first)) marker found = some (0, first) := by
  cases found <;> rfl

def moved (k : Nat) (found : Nat × String) : Nat × String :=
  (found.1 + k, found.2)

theorem earlier_moved (k : Nat) (best : Option (Nat × String)) (marker : String)
    (found : Option Nat) : earlier (best.map (moved k)) marker (found.map (· + k)) =
      (earlier best marker found).map (moved k) := by
  cases best with
  | none => cases found <;> rfl
  | some best =>
    cases found with
    | none => rfl
    | some m =>
      simp only [earlier, moved, Option.map_some, Nat.add_lt_add_iff_right]
      split <;> rfl

/-- Text in which no marker begins only moves the marker behind it. -/
theorem firstOpener_append {rest : List Char} (h : Unopened cs rest) :
    firstOpener .braces (cs ++ rest) = (firstOpener .braces rest).map (moved cs.length) := by
  have hindex (marker : String) (m : Char) (hmarker : marker.toList = ['\x7b', m])
      (hm : m ∈ ['%', '\x7b', '#']) : Text.indexOf marker.toList (cs ++ rest) =
        (Text.indexOf marker.toList rest).map (· + cs.length) := by
    rw [hmarker]
    exact indexOf_append (h m hm)
  have hfirst (found : Option Nat) : earlier none "\x7b%" (found.map (· + cs.length)) =
      (earlier none "\x7b%" found).map (moved cs.length) := earlier_moved cs.length none _ _
  rw [firstOpener_eq, firstOpener_eq, hindex "\x7b%" '%' rfl (by decide),
    hindex "\x7b\x7b" '\x7b' rfl (by decide), hindex "\x7b#" '#' rfl (by decide), hfirst,
    earlier_moved, earlier_moved]

theorem firstOpener_none (h : Unopened cs []) : firstOpener .braces cs = none := by
  have hnone : firstOpener .braces [] = none := rfl
  rw [← List.append_nil cs, firstOpener_append h, hnone, Option.map_none]

theorem firstOpener_front (hm : m ∈ ['%', '\x7b']) (after : List Char) :
    firstOpener .braces ('\x7b' :: m :: after) = some (0, String.ofList ['\x7b', m]) := by
  rw [firstOpener_eq]
  rcases List.mem_pair.mp hm with rfl | rfl
  · have hstatement : Text.indexOf "\x7b%".toList ('\x7b' :: '%' :: after) = some 0 := rfl
    have hbest : earlier none "\x7b%" (some 0) = some (0, "\x7b%") := rfl
    rw [hstatement, hbest, earlier_zero, earlier_zero]
  · have hstatement : Text.indexOf "\x7b%".toList ('\x7b' :: '\x7b' :: after) =
        (Text.indexOf "\x7b%".toList ('\x7b' :: after)).map (· + 1) := rfl
    have houtput : Text.indexOf "\x7b\x7b".toList ('\x7b' :: '\x7b' :: after) = some 0 := rfl
    have hbest : earlier (earlier none "\x7b%" ((Text.indexOf "\x7b%".toList
        ('\x7b' :: after)).map (· + 1))) "\x7b\x7b" (some 0) = some (0, "\x7b\x7b") := by
      cases Text.indexOf "\x7b%".toList ('\x7b' :: after) <;> rfl
    rw [hstatement, houtput, hbest, earlier_zero]

/-! ### Steps in text -/

/-- What the marker of a brace and `m` opens. -/
def opened (m : Char) : TokenKind :=
  if m = '%' then .openStatement else .openEcho

/-- In text, with `rest` ahead. -/
structure InText (s : Scanner) (rest : List Char) : Prop where
  rest : s.rest = rest
  mode : s.mode = .raw
  trimNextRaw : s.trimNextRaw = false
  finished : s.finished = false

namespace InText

variable {s : Scanner}

theorem next_nil (h : InText s []) : s.next table = (none, { s with finished := true }) := by
  have hstep : s.step table = (.ok none, s) := by
    simp [Scanner.step, h.mode, table, Scanner.nextRaw, h.trimNextRaw, h.rest]
  rw [Scanner.next, h.finished, hstep]
  rfl

theorem next_opener {after : List Char} (hm : m ∈ ['%', '\x7b']) (hc : c ≠ '-')
    (h : InText s ('\x7b' :: m :: c :: after)) : s.next table =
      (some (.ok ⟨opened m, String.ofList ['\x7b', m], s.position⟩),
        { s with
          rest := c :: after
          position := (s.position.advance '\x7b').advance m
          mode := .language
          openBraces := 0 }) := by
  have hwidth : (String.ofList ['\x7b', m]).length = 2 := String.length_ofList
  have htrims : ((('\x7b' :: m :: c :: after).drop
      (0 + (String.ofList ['\x7b', m]).length)).head? == some Delimiters.braces.trim) = false := by
    rw [hwidth]
    exact beq_false_of_ne fun h => hc (Option.some.inj h)
  have hstep : s.step table = (.ok (some (s.cut (opened m) 2)),
      { s.skip 2 with mode := .language, openBraces := 0 }) := by
    rw [Scanner.step, h.mode]
    simp only [table, Scanner.nextRaw, h.trimNextRaw, Bool.false_eq_true, if_false, h.rest,
      List.isEmpty_cons, firstOpener_front hm, htrims, List.take_zero, List.isEmpty_nil,
      Bool.not_true]
    rcases List.mem_pair.mp hm with rfl | rfl
    · rw [if_neg (by decide), if_pos (by decide), hwidth, Scanner.skip_zero]
      rfl
    · rw [if_neg (by decide), if_neg (by decide), hwidth, Scanner.skip_zero]
      rfl
  rw [Scanner.cut, Scanner.skip, h.rest] at hstep
  exact Scanner.next_of_step h.finished hstep

end InText

/-! ### Steps in code -/

/-- What the marker of `m` and a brace closes. -/
def closed (m : Char) : TokenKind :=
  if m = '%' then .closeStatement else .closeEcho

theorem closer?_front (hm : m ∈ ['%', '\x7d']) (after : List Char) :
    closer? .braces (m :: '\x7d' :: after) = some (closed m, 2, false) := by
  have hstatement : "%\x7d".length = 2 := by decide
  have houtput : "\x7d\x7d".length = 2 := by decide
  rcases List.mem_pair.mp hm with rfl | rfl
  · simp [closer?, Delimiters.braces, Text.startsWith, hstatement, closed]
  · simp [closer?, Delimiters.braces, Text.startsWith, houtput, closed]

/-- Behind the marker there is text again. -/
theorem next_closer {s u : Scanner} {after : List Char} (hm : m ∈ ['%', '\x7d'])
    (hs : s.Ahead table u) (hu : u.rest = m :: '\x7d' :: after) (hbraces : u.openBraces = 0) :
    s.next table =
      (some (.ok ⟨closed m, String.ofList [m, '\x7d'], u.position⟩),
        { u with
          rest := after
          position := (u.position.advance m).advance '\x7d'
          mode := .raw }) := by
  have hstep : s.step table =
      (.ok (some (u.cut (closed m) 2)), { u.skip 2 with mode := .raw }) := by
    have hfound : table.delimiters.bind (closer? · (m :: '\x7d' :: after)) =
        some (closed m, 2, false) := closer?_front hm after
    rw [hs.step_eq, Scanner.nextToken, hu]
    dsimp only
    rw [hbraces, hfound]
    rfl
  rw [Scanner.cut, Scanner.skip, hu] at hstep
  exact Scanner.next_of_step hs.finished hstep

end EmbeddedLang.Template
