import DocWire.Expr.Literal
import Mathlib.Algebra.Group.Nat.Even
import Mathlib.Data.List.Basic

/-!
# Quoted strings

A quoted string can denote every text in which no delimiter and no end stands behind an odd number
of backslashes, and it denotes such a text if the delimiters in it are doubled.  No other text can
be denoted: a backslash takes the character behind it along, so a delimiter ends the string or
stands for itself by the parity of the backslashes before it.

* `EvenRuns`          what the backslashes of a text have to be like;
* `Denotable`         the texts that are read, character by character;
* `evenRuns_iff`      the two are the same;
* `unquote_doubled_append`, `denotable_of_unquote`   reading what was written, and what is read;
* `quoted_denotes`    the texts that a quoted string can denote.
-/

namespace DocWire

/-! ## Closing a string -/

section
variable {d : Char} (hplain : d ≠ '\\')
include hplain

theorem unquote_close {T : List Char} (hT : T.head? ≠ some d) :
    unquote d (d :: T) = some ([], T) := by
  cases T with
  | nil =>
    rw [unquote, if_pos rfl]
    exact hplain
  | cons c rest =>
    rw [unquote, if_pos rfl, if_neg fun h => hT (by rw [h]; rfl)]
    exact hplain

theorem unquote_doubled (rest : List Char) :
    unquote d (d :: d :: rest) = (unquote d rest).map fun (text, after) => (d :: text, after) := by
  rw [unquote, if_pos rfl, if_pos rfl]
  exact hplain

end

theorem unquote_cons {d c : Char} (hc : c ≠ d) (hplain : c ≠ '\\') (rest : List Char) :
    unquote d (c :: rest) = (unquote d rest).map fun (text, after) => (c :: text, after) := by
  cases rest with
  | nil =>
    have hlast : unquote d [c] = if c = d then some ([], []) else none := by
      rw [unquote]
      exact hplain
    rw [hlast, if_neg hc]
    rfl
  | cons e rest =>
    rw [unquote, if_neg hc]
    exact hplain

/-- What is read up to a closing delimiter is read so too where the text goes on with another
character. -/
theorem unquote_append {d : Char} {cs text after U : List Char} (hplain : d ≠ '\\')
    (hU : U.head? ≠ some d) (h : unquote d cs = some (text, after)) :
    after.length < cs.length ∧ unquote d (cs ++ U) = some (text, after ++ U) := by
  fun_induction unquote d cs generalizing text after with
  | case1 | case2 | case5 => cases h
  | case3 c rest ih =>
    obtain ⟨x, hx, hxs⟩ := Option.map_eq_some_iff.mp h
    cases hxs
    obtain ⟨hlt, hread⟩ := ih hx
    refine ⟨Nat.lt_of_lt_of_le hlt (Nat.le_add_right _ 2), ?_⟩
    rw [List.cons_append, List.cons_append, unquote, hread]
    rfl
  | case4 =>
    cases h
    exact ⟨Nat.one_pos, unquote_close hplain hU⟩
  | case6 rest _ ih =>
    obtain ⟨x, hx, hxs⟩ := Option.map_eq_some_iff.mp h
    cases hxs
    obtain ⟨hlt, hread⟩ := ih hx
    refine ⟨Nat.lt_of_lt_of_le hlt (Nat.le_add_right _ 2), ?_⟩
    rw [List.cons_append, List.cons_append, unquote_doubled hplain, hread]
    rfl
  | case7 c rest hc =>
    cases h
    exact ⟨Nat.lt_succ_self _, unquote_close hplain fun he => hc (Option.some.inj he)⟩
  | case8 c e rest hc hne ih =>
    obtain ⟨x, hx, hxs⟩ := Option.map_eq_some_iff.mp h
    cases hxs
    obtain ⟨hlt, hread⟩ := ih hx
    refine ⟨Nat.lt_succ_of_lt hlt, ?_⟩
    rw [List.cons_append, unquote_cons hne hc, hread]
    rfl

/-- A delimiter is no backslash. -/
theorem ne_backslash_of_isQuote {d : Char} (hd : isQuote d = true) : d ≠ '\\' := by
  rintro rfl
  cases hd

/-! ## Texts that can be denoted -/

/-- Every maximal run of backslashes that stands right before a delimiter, or at the end, has an
even length. -/
def EvenRuns (d : Char) (s : List Char) : Prop :=
  ∀ before n after, s = before ++ (List.replicate n '\\' ++ after) →
    before.getLast? ≠ some '\\' → (∀ c ∈ after.head?, c = d) → Even n

/-- The texts that are read between delimiters: a backslash comes with another character behind it,
which is no delimiter. -/
inductive Denotable (d : Char) : List Char → Prop
  | nil : Denotable d []
  | escape {c : Char} {s : List Char} (hc : c ≠ d) (h : Denotable d s) : Denotable d ('\\' :: c :: s)
  | plain {c : Char} {s : List Char} (hc : c ≠ '\\') (h : Denotable d s) : Denotable d (c :: s)

namespace EvenRuns

variable {d c : Char} {s : List Char}

/-- What follows another character than a backslash is looked at alone. -/
theorem tail (hc : c ≠ '\\') (h : EvenRuns d (c :: s)) : EvenRuns d s := by
  intro before n after hs hbefore hafter
  refine h (c :: before) n after (congrArg (c :: ·) hs) ?_ hafter
  cases before with
  | nil => exact fun hlast => hc (Option.some.inj hlast)
  | cons b rest =>
    rw [List.getLast?_cons_cons]
    exact hbefore

/-- A run that is taken up by two is as even as before. -/
theorem behind_escape (h : EvenRuns d ('\\' :: c :: s)) : EvenRuns d s := by
  intro before n after hs hbefore hafter
  cases before with
  | nil =>
    by_cases hc : c = '\\'
    · have heven : Even (n + 2) := h [] (n + 2) after (by rw [hc, hs]; rfl) nofun hafter
      exact (Nat.even_add.mp heven).mpr (Nat.even_iff.mpr rfl)
    · exact h ['\\', c] n after (by rw [hs]; rfl) (fun hlast => hc (Option.some.inj hlast)) hafter
  | cons b rest =>
    refine h ('\\' :: c :: b :: rest) n after (by rw [hs]; rfl) ?_ hafter
    rw [List.getLast?_cons_cons, List.getLast?_cons_cons]
    exact hbefore

end EvenRuns

/-- A text is denotable if every run that matters is even. -/
theorem EvenRuns.denotable {d : Char} {s : List Char} (h : EvenRuns d s) : Denotable d s := by
  induction hn : s.length using Nat.strongRecOn generalizing s with
  | ind n ih =>
    cases s with
    | nil => exact .nil
    | cons c rest =>
      rw [List.length_cons] at hn
      by_cases hc : c = '\\'
      · subst hc
        cases rest with
        | nil => exact absurd (h [] 1 [] rfl nofun nofun) (by decide)
        | cons c rest =>
          rw [List.length_cons] at hn
          have hne : c ≠ d := by
            rintro rfl
            exact absurd (h [] 1 (c :: rest) rfl nofun fun _ he => (Option.some.inj he).symm)
              (by decide)
          exact .escape hne (ih rest.length (by omega) h.behind_escape rfl)
      · exact .plain hc (ih rest.length (by omega) (h.tail hc) rfl)

theorem Denotable.evenRuns {d : Char} {s : List Char} (h : Denotable d s) : EvenRuns d s := by
  induction h with
  | nil =>
    intro before n after hs _ _
    obtain ⟨-, hrun⟩ := List.append_eq_nil_iff.mp hs.symm
    obtain ⟨hn, -⟩ := List.append_eq_nil_iff.mp hrun
    rw [List.replicate_eq_nil_iff] at hn
    exact hn ▸ Nat.even_iff.mpr rfl
  | @plain c s hc _ ih =>
    intro before n after hs hbefore hafter
    cases before with
    | nil =>
      cases n with
      | zero => exact Nat.even_iff.mpr rfl
      | succ n => exact absurd (List.cons.inj hs).1 hc
    | cons b rest =>
      refine ih rest n after (List.cons.inj hs).2 ?_ hafter
      cases rest with
      | nil => exact nofun
      | cons => rwa [List.getLast?_cons_cons] at hbefore
  | @escape c s hc _ ih =>
    intro before n after hs hbefore hafter
    match before, n with
    | [], 0 => exact Nat.even_iff.mpr rfl
    | [], 1 =>
      have hafter' : after = c :: s := (List.cons.inj hs).2.symm
      exact absurd (hafter c (by rw [hafter']; rfl)) hc
    | [], n + 2 =>
      have hs' : s = List.replicate n '\\' ++ after := (List.cons.inj (List.cons.inj hs).2).2
      exact (ih [] n after hs' nofun hafter).add (Nat.even_iff.mpr rfl)
    | [b], n =>
      refine absurd ?_ hbefore
      rw [← (List.cons.inj hs).1]
      rfl
    | b :: b' :: rest, n =>
      refine ih rest n after (List.cons.inj (List.cons.inj hs).2).2 ?_ hafter
      cases rest with
      | nil => exact nofun
      | cons => rwa [List.getLast?_cons_cons, List.getLast?_cons_cons] at hbefore

theorem evenRuns_iff {d : Char} {s : List Char} : EvenRuns d s ↔ Denotable d s :=
  ⟨EvenRuns.denotable, Denotable.evenRuns⟩

/-- a text without backslashes -/
theorem denotable_of_not_mem {d : Char} {s : List Char} (h : '\\' ∉ s) : Denotable d s := by
  induction s with
  | nil => exact .nil
  | cons c rest ih =>
    obtain ⟨hc, hrest⟩ := not_or.mp (List.mem_cons.not.mp h)
    exact .plain (Ne.symm hc) (ih hrest)

/-! ## Reading what was written -/

/-- a text with its delimiters doubled -/
def doubled (d : Char) (s : List Char) : List Char :=
  s.flatMap fun c => if c = d then [d, d] else [c]

/-- A text that can be denoted is read back if its delimiters are doubled. -/
theorem unquote_doubled_append {d : Char} (hplain : d ≠ '\\') {s T : List Char}
    (h : Denotable d s) (hT : T.head? ≠ some d) :
    unquote d (doubled d s ++ d :: T) = some (s, T) := by
  unfold doubled
  induction h with
  | nil => exact unquote_close hplain hT
  | @plain c s hc _ ih =>
    rw [List.flatMap_cons, List.append_assoc]
    by_cases hd : c = d
    · rw [if_pos hd, hd, List.cons_append, List.singleton_append, unquote_doubled hplain, ih]
      rfl
    · rw [if_neg hd, List.singleton_append, unquote_cons hd hc, ih]
      rfl
  | @escape c s hc _ ih =>
    rw [List.flatMap_cons, List.flatMap_cons, if_neg hplain.symm, if_neg hc]
    simp only [List.cons_append, List.nil_append]
    rw [unquote, ih]
    show some (if c = d then c :: s else '\\' :: c :: s, T) = _
    rw [if_neg hc]

/-- What is read can be denoted. -/
theorem denotable_of_unquote {d : Char} (hplain : d ≠ '\\') {cs s T : List Char}
    (h : unquote d cs = some (s, T)) : Denotable d s := by
  fun_induction unquote d cs generalizing s T with
  | case1 => cases h
  | case2 => cases h
  | case3 c rest ih =>
    obtain ⟨⟨text, after⟩, hrest, hs⟩ := Option.map_eq_some_iff.mp h
    obtain ⟨rfl, rfl⟩ := Prod.mk.inj hs
    split
    · rename_i hc
      exact .plain (hc ▸ hplain) (ih hrest)
    · rename_i hc
      exact .escape hc (ih hrest)
  | case4 =>
    obtain ⟨rfl, -⟩ := Prod.mk.inj (Option.some.inj h)
    exact .nil
  | case5 => cases h
  | case6 rest _ ih =>
    obtain ⟨⟨text, after⟩, hrest, hs⟩ := Option.map_eq_some_iff.mp h
    obtain ⟨rfl, -⟩ := Prod.mk.inj hs
    exact .plain hplain (ih hrest)
  | case7 =>
    obtain ⟨rfl, -⟩ := Prod.mk.inj (Option.some.inj h)
    exact .nil
  | case8 c _ _ hc _ ih =>
    obtain ⟨⟨text, after⟩, hrest, hs⟩ := Option.map_eq_some_iff.mp h
    obtain ⟨rfl, -⟩ := Prod.mk.inj hs
    exact .plain hc (ih hrest)

/-! ## Sources -/

/-- A string between delimiters is read up to the second one. -/
theorem quoted_append {d : Char} (hd : isQuote d = true) {used T s : List Char}
    (h : unquote d (used ++ T) = some (s, T)) (pos m : Nat) :
    quoted ⟨d :: (used ++ T), pos, m⟩
      = .ok (String.ofList s, ⟨T, pos + byteLength (d :: used), m⟩) := by
  have hlength : (d :: (used ++ T)).length - T.length = (d :: used).length := by
    rw [List.length_cons, List.length_append, List.length_cons]
    omega
  have hskip : (⟨d :: (used ++ T), pos, m⟩ : Source).skip (d :: used).length
      = ⟨T, pos + byteLength (d :: used), m⟩ := by
    unfold Source.skip
    simp
  unfold quoted
  dsimp only
  rw [if_pos hd, h]
  dsimp only
  rw [hlength, hskip]

/-- **The texts that a quoted string denotes.**  Between delimiters, with its own delimiters
doubled, a text is read back and what follows is left alone, if every run of backslashes in it that
stands right before a delimiter or at its end is even.  Nothing else is ever read. -/
theorem quoted_denotes {d : Char} (hd : isQuote d = true) :
    (∀ s, EvenRuns d s → ∀ T, T.head? ≠ some d → ∀ pos m,
      quoted ⟨d :: (doubled d s ++ d :: T), pos, m⟩
        = .ok (String.ofList s, ⟨T, pos + byteLength (d :: (doubled d s ++ [d])), m⟩)) ∧
    ∀ src text t, src.peek = some d → quoted src = .ok (text, t) → EvenRuns d text.toList := by
  have hplain := ne_backslash_of_isQuote hd
  constructor
  · intro s hs T hT pos m
    have hread := unquote_doubled_append hplain hs.denotable hT
    have htext : doubled d s ++ d :: T = (doubled d s ++ [d]) ++ T := by simp
    rw [htext] at hread ⊢
    exact quoted_append hd hread pos m
  · intro src text t hpeek h
    obtain ⟨body, hbody⟩ : ∃ body, src.rest = d :: body := List.head?_eq_some_iff.mp hpeek
    unfold quoted at h
    rw [hbody] at h
    dsimp only at h
    rw [hd, if_pos rfl] at h
    cases hread : unquote d body with
    | none =>
      rw [hread] at h
      cases h
    | some found =>
      rw [hread] at h
      obtain ⟨rfl, -⟩ := Prod.mk.inj (Except.ok.inj h)
      rw [String.toList_ofList]
      exact (denotable_of_unquote hplain hread).evenRuns

/-- Two backslashes before a delimiter, one before a letter, and two at the end. -/
theorem quoted_denotes_backslashes :
    let s := "\\\\'\\n\\\\".toList
    isQuote '\'' = true ∧ EvenRuns '\'' s ∧
      quoted (.ofList "'\\\\''\\n\\\\' + 1".toList)
        = .ok ("\\\\'\\n\\\\", ⟨" + 1".toList, 10, 0⟩) := by
  intro s
  have hs : EvenRuns '\'' ['\\', '\\', '\'', '\\', 'n', '\\', '\\'] :=
    evenRuns_iff.mpr (.escape (by decide) (.plain (by decide) (.escape (by decide)
      (.escape (by decide) .nil))))
  exact ⟨rfl, hs, (quoted_denotes rfl).1 s hs " + 1".toList (by decide) 0 0⟩

end DocWire
