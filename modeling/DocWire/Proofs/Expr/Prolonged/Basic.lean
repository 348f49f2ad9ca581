import DocWire.Proofs.Expr.Tokens
import DocWire.Proofs.Expr.Yields
import Mathlib.Data.Option.Basic

/-!
# Texts that go on

A text is put into a longer one, behind other texts and with something behind it.  Where what comes
behind is detached, scanning does there what it does in the text alone.

* `Detached`            nothing before a text is taken further by it;
* `Source.Prolonged`    the same place in a longer text;
* `Source.Tracks`       the same place up to blanks, which a text may end with;
* `Sees`                a look at what is next gives the same in both texts;
* `Keeps`, `Carries`    what a reader gives in the text it gives in the longer one.
-/

namespace DocWire

open Source (nextIn)

variable {α β : Type}

/-! ## What may come behind -/

/-- the characters that go on with an operand or take it up -/
def joining : List Char :=
  ['.', '[', '(', '+', '-', '*', '/', '%', '<', '>', '=', '!', '&', '|', '^', '"', '\'', '`']

/-- the words that go on with an operand or take it up -/
def joiningWords : List String := "integer" :: reservedWords

/-- No word begins with a character that goes on with an operand. -/
theorem Word.first_ne (w : Word) {c : Char} (hc : c ∈ joining) : w.first ≠ c := by
  rintro rfl
  have hall : joining.any isWordStart = false := by decide
  exact List.any_eq_false.mp hall _ hc w.starts

/-- A text that goes on with nothing that stands before it, blanks at its beginning passed or not. -/
structure Detached (T : List Char) : Prop where
  endsWord : EndsWord T
  next : ∀ c ∈ (T.dropWhile Text.isBlank).head?, c ∉ joining
  word : ∀ word ∈ joiningWords, ∀ pos m, (nextIn T pos m).atKeyword word = false

theorem isWordChar_of_isDigit {c : Char} (h : Text.isDigit c = true) : isWordChar c = true := by
  have hsmall : c.toNat < 0x80 := by
    simp only [Text.isDigit, Bool.and_eq_true, decide_eq_true_eq, Char.le_def,
      UInt32.le_iff_toNat_le] at h
    exact Nat.lt_of_le_of_lt h.2 (by decide)
  unfold isWordChar Text.isAlphanumeric Text.isNumeral
  rw [if_pos hsmall, h]
  simp

namespace Detached

variable {T : List Char}

theorem nil : Detached [] := ⟨nofun, nofun, fun _ _ _ _ => rfl⟩

/-- Where the end is read as nothing, so is what is detached. -/
theorem head (hT : Detached T) : ∀ c ∈ T.head?, c ∉ joining := by
  intro c hc hjoining
  have hblank : Text.isBlank c = false := by
    have hall : joining.any Text.isBlank = false := by decide
    exact Bool.eq_false_iff.mpr (List.any_eq_false.mp hall c hjoining)
  cases T with
  | nil => cases hc
  | cons d rest =>
    obtain rfl : d = c := Option.some.inj hc
    refine hT.next d ?_ hjoining
    rw [List.dropWhile_cons_of_neg (by rw [hblank]; exact Bool.false_ne_true)]
    rfl

theorem digit (hT : Detached T) : ∀ c ∈ T.head?, Text.isDigit c = false := by
  intro c hc
  refine Bool.eq_false_iff.mpr fun h => ?_
  have := hT.endsWord c hc
  rw [isWordChar_of_isDigit h] at this
  cases this

theorem start (hT : Detached T) : ∀ c ∈ T.head?, isWordStart c = false := by
  intro c hc
  refine Bool.eq_false_iff.mpr fun h => ?_
  have := hT.endsWord c hc
  rw [isWordChar_of_isWordStart h] at this
  cases this

/-- A bracket that closes and a comma are detached. -/
theorem closing {c : Char} (hc : c ∈ [')', ',', ']', '\x7d']) (U : List Char) : Detached (c :: U) := by
  obtain ⟨hword, hblank, hjoining⟩ : isWordChar c = false ∧ Text.isBlank c = false ∧
      c ∉ joining := by
    simp only [List.mem_cons, List.not_mem_nil, or_false] at hc
    rcases hc with rfl | rfl | rfl | rfl <;> decide
  refine ⟨endsWord_cons hword U, fun d hd => ?_, fun word _ pos m => ?_⟩
  · rw [List.dropWhile_cons_of_neg (by rw [hblank]; exact Bool.false_ne_true)] at hd
    exact Option.some.inj hd ▸ hjoining
  · rw [Source.nextIn_solid hblank]
    refine atKeyword_of_not_isWordStart (Bool.eq_false_iff.mpr fun h => ?_) U word pos m
    rw [isWordChar_of_isWordStart h] at hword
    cases hword

end Detached

/-! ## The same place -/

namespace Source

/-- `s'` stands where `s` stands, in a text that goes on with `T`, with `k` more placeholders met
before. -/
structure Prolonged (T : List Char) (k : Nat) (s s' : Source) : Prop where
  rest : s'.rest = s.rest ++ T
  marks : s'.marks = s.marks + k

/-- `s'` stands where `s` stands up to blanks, in a text that goes on with `T`. -/
def Tracks (T : List Char) (k : Nat) (s s' : Source) : Prop := s'.At (s.rest ++ T) (s.marks + k)

/-- the number of characters that are left, without blanks at the beginning -/
def remaining (s : Source) : Nat := s.skipBlanks.rest.length

theorem rest_skipBlanks (s : Source) : s.skipBlanks.rest = s.rest.dropWhile Text.isBlank := by
  unfold skipBlanks skipWhile skip
  exact drop_length_takeWhile _ _

theorem remaining_le (s : Source) : s.remaining ≤ s.rest.length := by
  unfold remaining
  rw [rest_skipBlanks]
  exact (List.dropWhile_sublist _).length_le

theorem remaining_skipBlanks (s : Source) : s.skipBlanks.remaining = s.remaining := by
  unfold remaining
  rw [rest_skipBlanks s.skipBlanks, rest_skipBlanks, List.dropWhile_idempotent]

theorem length_skip (s : Source) (n : Nat) : (s.skip n).rest.length = s.rest.length - n :=
  List.length_drop

theorem length_skip_lt {s : Source} (h : s.rest ≠ []) {n : Nat} (hn : 0 < n) :
    (s.skip n).rest.length < s.rest.length := by
  have := List.length_pos_of_ne_nil h
  rw [length_skip]
  omega

namespace Prolonged

variable {T : List Char} {k : Nat} {s s' : Source} (h : s.Prolonged T k s')
include h

theorem tracks : s.Tracks T k s' := ⟨by rw [h.rest], h.marks⟩

theorem skip {n : Nat} (hn : n ≤ s.rest.length) : (s.skip n).Prolonged T k (s'.skip n) where
  rest := by
    show s'.rest.drop n = s.rest.drop n ++ T
    rw [h.rest, List.drop_append_of_le_length hn]
  marks := h.marks

theorem peek_eq (hne : s.rest ≠ []) : s'.peek = s.peek := by
  unfold peek
  rw [h.rest, List.head?_append_of_ne_nil _ hne]

theorem peek_of_nil (hnil : s.rest = []) : s'.peek = T.head? := by
  unfold peek
  rw [h.rest, hnil, List.nil_append]

/-- A character that does not begin what comes behind is next in both texts, or in none. -/
theorem peek_eq_iff {c : Char} (hc : T.head? ≠ some c) : s'.peek = some c ↔ s.peek = some c := by
  by_cases hne : s.rest = []
  · rw [h.peek_of_nil hne]
    refine iff_of_false hc fun hpeek => ?_
    unfold peek at hpeek
    rw [hne] at hpeek
    cases hpeek
  · rw [h.peek_eq hne]

theorem peekSecond_eq_iff {c : Char} (hne : s.rest ≠ []) (hc : T.head? ≠ some c) :
    s'.peekSecond = some c ↔ s.peekSecond = some c := by
  obtain ⟨d, rest, hrest⟩ := List.exists_cons_of_ne_nil hne
  unfold peekSecond
  rw [h.rest, hrest, List.cons_append, List.tail_cons, List.tail_cons]
  cases rest with
  | nil => exact iff_of_false hc nofun
  | cons e rest => rfl

end Prolonged

end Source

open Source

/-- A run of characters is the same in a longer text that does not go on with it. -/
theorem takeWhile_append_of_head {p : Char → Bool} {T : List Char}
    (hT : ∀ c ∈ T.head?, p c = false) (cs : List Char) :
    (cs ++ T).takeWhile p = cs.takeWhile p := by
  induction cs with
  | nil => exact takeWhile_append_of_stop nofun hT
  | cons c rest ih =>
    rw [List.cons_append, List.takeWhile_cons, List.takeWhile_cons, ih]

/-! ## Looking at what is next -/

/-- What is seen in a text is seen in the longer one, and something is passed with it. -/
def Sees (T : List Char) (k n : Nat) (found found' : Option Source) : Prop :=
  Option.Rel (fun t t' => t.rest.length < n ∧ t.Prolonged T k t') found found'

theorem Sees.mono {T : List Char} {k m n : Nat} {found found' : Option Source} (hmn : m ≤ n) :
    Sees T k m found found' → Sees T k n found found'
  | .none => .none
  | .some ht => .some ⟨ht.1.trans_le hmn, ht.2⟩

namespace Source.Prolonged

variable {T : List Char} {k : Nat} {s s' : Source} (h : s.Prolonged T k s')
include h

theorem eat_of_iff {c : Char} (hc : s'.peek = some c ↔ s.peek = some c) :
    Sees T k s.rest.length (s.eat c) (s'.eat c) := by
  unfold Source.eat
  by_cases hpeek : s.peek = some c
  · have hne : s.rest ≠ [] := by
      intro hnil
      unfold peek at hpeek
      rw [hnil] at hpeek
      cases hpeek
    rw [if_pos hpeek, if_pos (hc.mpr hpeek)]
    exact .some ⟨length_skip_lt hne Nat.one_pos, h.skip (List.length_pos_of_ne_nil hne)⟩
  · rw [if_neg hpeek, if_neg (hc.not.mpr hpeek)]
    exact .none

theorem eat {c : Char} (hc : T.head? ≠ some c) : Sees T k s.rest.length (s.eat c) (s'.eat c) :=
  h.eat_of_iff (h.peek_eq_iff hc)

/-- Before the end of a text, what comes behind it does not matter. -/
theorem eat_of_ne_nil (hne : s.rest ≠ []) (c : Char) :
    Sees T k s.rest.length (s.eat c) (s'.eat c) :=
  h.eat_of_iff (by rw [h.peek_eq hne])

end Source.Prolonged

theorem isPrefixOf_append {T text : List Char} (hT : ∀ c ∈ T.head?, c ∉ text) (cs : List Char) :
    text.isPrefixOf (cs ++ T) = text.isPrefixOf cs := by
  induction text generalizing cs with
  | nil => rfl
  | cons d ds ih =>
    cases cs with
    | nil =>
      cases T with
      | nil => rfl
      | cons c rest =>
        have hc : d ≠ c := fun he => hT c rfl (he ▸ List.mem_cons_self)
        show (d == c && ds.isPrefixOf rest) = false
        rw [beq_false_of_ne hc, Bool.false_and]
    | cons c rest =>
      show (d == c && ds.isPrefixOf (rest ++ T)) = (d == c && ds.isPrefixOf rest)
      rw [ih fun c hc hmem => hT c hc (List.mem_cons_of_mem d hmem)]

namespace Source.Prolonged

variable {T : List Char} {k : Nat} {s s' : Source} (h : s.Prolonged T k s')
include h

theorem eatText {text : String} (htext : text.toList ≠ []) (hT : ∀ c ∈ T.head?, c ∉ text.toList) :
    Sees T k s.rest.length (s.eatText text) (s'.eatText text) := by
  unfold Source.eatText
  rw [h.rest, isPrefixOf_append hT]
  by_cases hfound : text.toList.isPrefixOf s.rest = true
  · rw [if_pos hfound, if_pos hfound]
    have hle := (List.isPrefixOf_iff_prefix.mp hfound).length_le
    have hpos := List.length_pos_of_ne_nil htext
    exact .some ⟨length_skip_lt (List.ne_nil_of_length_pos (by omega)) hpos, h.skip hle⟩
  · rw [if_neg hfound, if_neg hfound]
    exact .none

theorem eatOp {text : String} {notBefore : List Char} (htext : text.toList ≠ [])
    (hT : ∀ c ∈ T.head?, c ∉ text.toList ++ notBefore) :
    Sees T k s.rest.length (s.eatOp text notBefore) (s'.eatOp text notBefore) := by
  have hfound := h.eatText htext fun c hc hmem => hT c hc (List.mem_append_left _ hmem)
  unfold Source.eatOp
  generalize s.eatText text = a, s'.eatText text = a' at hfound
  cases hfound with
  | none => exact .none
  | @some t t' ht =>
    dsimp only
    cases hrest : t.rest with
    | nil =>
      have hpeek : t.peek = none := by
        unfold peek
        rw [hrest]
        rfl
      rw [hpeek, ht.2.peek_of_nil hrest]
      cases hhead : T.head? with
      | none => exact .some ht
      | some c =>
        dsimp only
        rw [if_neg fun hc => hT c hhead (List.mem_append_right _ (List.contains_iff_mem.mp hc))]
        exact .some ht
    | cons c rest =>
      rw [ht.2.peek_eq (by rw [hrest]; exact List.cons_ne_nil c rest)]
      cases t.peek with
      | none => exact .some ht
      | some c =>
        dsimp only
        by_cases hc : notBefore.contains c = true
        · rw [if_pos hc, if_pos hc]
          exact .none
        · rw [if_neg hc, if_neg hc]
          exact .some ht

theorem word?_eq (hT : Detached T) : s'.word? = s.word? := by
  unfold word?
  by_cases hne : s.rest = []
  · have hpeek : s.peek = none := by
      unfold peek
      rw [hne]
      rfl
    rw [hpeek, h.peek_of_nil hne]
    cases hhead : T.head? with
    | none => rfl
    | some c =>
      dsimp only
      rw [hT.start c hhead]
      rfl
  · rw [h.peek_eq hne, h.rest, takeWhile_append_of_head hT.endsWord]

theorem atKeyword_eq (hT : Detached T) (word : String) : s'.atKeyword word = s.atKeyword word := by
  unfold atKeyword
  rw [h.word?_eq hT]

end Source.Prolonged

/-- A word that is next is there, and it is not empty. -/
theorem Source.length_word {s : Source} {word : List Char} (h : s.word? = some word) :
    0 < word.length ∧ word.length ≤ s.rest.length := by
  unfold word? peek at h
  cases hrest : s.rest with
  | nil =>
    rw [hrest] at h
    cases h
  | cons c rest =>
    rw [hrest] at h
    dsimp only [List.head?_cons] at h
    rw [Option.ite_none_right_eq_some] at h
    obtain ⟨hstart, hword⟩ := h
    rw [List.takeWhile_cons_of_pos (isWordChar_of_isWordStart hstart)] at hword
    obtain rfl := Option.some.inj hword
    exact ⟨Nat.succ_pos _, Nat.succ_le_succ (List.takeWhile_sublist _).length_le⟩

/-- A keyword that is passed is a word. -/
theorem Source.exists_word_of_eatKeyword {s t : Source} {word : String}
    (h : s.eatKeyword word = some t) : ∃ found, s.word? = some found := by
  unfold Source.eatKeyword at h
  rw [Option.ite_none_right_eq_some] at h
  have hword := h.1
  unfold atKeyword at hword
  cases hnext : s.word? with
  | none =>
    rw [hnext] at hword
    cases hword
  | some found => exact ⟨found, rfl⟩

theorem length_eq_of_sameWord {a b : List Char} (h : sameWord a b = true) : a.length = b.length := by
  have := congrArg List.length (beq_iff_eq.mp h)
  rwa [List.length_map, List.length_map] at this

theorem Source.Prolonged.eatKeyword {T : List Char} {k : Nat} {s s' : Source}
    (h : s.Prolonged T k s') (hT : Detached T) (word : String) :
    Sees T k s.rest.length (s.eatKeyword word) (s'.eatKeyword word) := by
  unfold Source.eatKeyword
  rw [h.atKeyword_eq hT]
  by_cases hword : s.atKeyword word = true
  · rw [if_pos hword, if_pos hword]
    unfold atKeyword at hword
    cases hnext : s.word? with
    | none =>
      rw [hnext] at hword
      cases hword
    | some found =>
      rw [hnext] at hword
      obtain ⟨hpos, hle⟩ := length_word hnext
      rw [← length_eq_of_sameWord hword]
      exact .some ⟨length_skip_lt (List.ne_nil_of_length_pos (by omega)) hpos, h.skip hle⟩
  · rw [if_neg hword, if_neg hword]
    exact .none

/-! ## Behind blanks -/

theorem dropWhile_append_dropWhile (p : Char → Bool) (cs T : List Char) :
    (cs.dropWhile p ++ T).dropWhile p = (cs ++ T).dropWhile p := by
  rw [List.dropWhile_append, List.dropWhile_append, List.dropWhile_idempotent]

namespace Detached

variable {T : List Char} (hT : Detached T)
include hT

/-- What follows behind blanks, if something does, goes on with nothing. -/
theorem next_cases : T.dropWhile Text.isBlank = [] ∨
    ∃ c rest, T.dropWhile Text.isBlank = c :: rest ∧ c ∉ joining := by
  cases hnext : T.dropWhile Text.isBlank with
  | nil => exact .inl rfl
  | cons c rest => exact .inr ⟨c, rest, rfl, hT.next c (by rw [hnext]; rfl)⟩

theorem peek {c : Char} (hc : c ∈ joining) (pos m : Nat) : (nextIn T pos m).peek ≠ some c :=
  fun h => hT.next c h hc

theorem eat {c : Char} (hc : c ∈ joining) (pos m : Nat) : (nextIn T pos m).eat c = none :=
  if_neg (hT.peek hc pos m)

theorem eatText {text : String} (htext : text.toList ≠ [])
    (hjoining : text.toList ⊆ joining) (pos m : Nat) :
    (nextIn T pos m).eatText text = none := by
  obtain ⟨d, ds, hcs⟩ := List.exists_cons_of_ne_nil htext
  unfold nextIn
  obtain hnext | ⟨c, rest, hnext, hc⟩ := hT.next_cases
  · rw [hnext]
    refine if_neg ?_
    rw [hcs]
    exact Bool.false_ne_true
  · rw [hnext]
    have hd : d ∈ joining := hjoining (by rw [hcs]; exact List.mem_cons_self)
    exact eatText_of_ne (fun h : c = d => hc (by rw [h]; exact hd)) hcs rest pos m

theorem eatOp {text : String} (notBefore : List Char) (htext : text.toList ≠ [])
    (hjoining : text.toList ⊆ joining) (pos m : Nat) :
    (nextIn T pos m).eatOp text notBefore = none := by
  unfold Source.eatOp
  rw [hT.eatText htext hjoining]

theorem eatKeyword {word : String} (hword : word ∈ joiningWords) (pos m : Nat) :
    (nextIn T pos m).eatKeyword word = none := by
  unfold Source.eatKeyword
  rw [hT.word word hword]
  rfl

end Detached

namespace Source.Tracks

variable {T : List Char} {k : Nat} {s s' : Source} (h : s.Tracks T k s')
include h

theorem skipBlanks : s.skipBlanks.Tracks T k s'.skipBlanks := by
  refine ⟨?_, h.2⟩
  rw [rest_skipBlanks, rest_skipBlanks, List.dropWhile_idempotent, dropWhile_append_dropWhile, h.1]

/-- Behind blanks there is the same place, unless the text is at its end. -/
theorem cases : (s.skipBlanks.rest ≠ [] ∧ s.skipBlanks.Prolonged T k s'.skipBlanks) ∨
    s.skipBlanks.rest = [] ∧ ∃ pos, s'.skipBlanks = nextIn T pos (s.marks + k) := by
  obtain ⟨pos, hpos⟩ := h.skipBlanks_eq
  rw [rest_skipBlanks]
  by_cases hne : s.rest.dropWhile Text.isBlank = []
  · refine .inr ⟨hne, pos, ?_⟩
    rw [hpos]
    unfold nextIn
    rw [List.dropWhile_append, hne]
    rfl
  · refine .inl ⟨hne, ?_, ?_⟩
    · rw [hpos, rest_skipBlanks]
      unfold nextIn
      rw [List.dropWhile_append, if_neg (mt List.isEmpty_iff.mp hne)]
    · rw [hpos]
      rfl

/-- What is seen at no place of what comes behind, and not at the end, is seen alike. -/
theorem sees {look : Source → Option Source} (hend : ∀ t : Source, t.rest = [] → look t = none)
    (hT : ∀ pos m, look (nextIn T pos m) = none)
    (hlook : ∀ t t', t.Prolonged T k t' → Sees T k t.rest.length (look t) (look t')) :
    Sees T k s.remaining (look s.skipBlanks) (look s'.skipBlanks) := by
  obtain ⟨-, hsame⟩ | ⟨hnil, pos, hpos⟩ := h.cases
  · exact hlook _ _ hsame
  · rw [hend _ hnil, hpos, hT]
    exact .none

end Source.Tracks

theorem eatText_of_nil {s : Source} (hs : s.rest = []) {text : String} (htext : text.toList ≠ []) :
    s.eatText text = none := by
  obtain ⟨d, ds, hcs⟩ := List.exists_cons_of_ne_nil htext
  refine if_neg ?_
  rw [hs, hcs]
  exact Bool.false_ne_true

theorem peek_of_rest_nil {s : Source} (hs : s.rest = []) : s.peek = none := by
  unfold peek
  rw [hs]
  rfl

theorem Source.exists_of_peek {s : Source} {c : Char} (h : s.peek = some c) :
    ∃ rest, s = ⟨c :: rest, s.pos, s.marks⟩ := by
  obtain ⟨rest, hrest⟩ := List.head?_eq_some_iff.mp h
  exact ⟨rest, by rw [← hrest]⟩

theorem Source.peek_of_eat {s t : Source} {c : Char} (h : s.eat c = some t) : s.peek = some c := by
  unfold Source.eat at h
  rw [Option.ite_none_right_eq_some] at h
  exact h.1

theorem eat_of_nil {s : Source} (hs : s.rest = []) (c : Char) : s.eat c = none := by
  refine if_neg ?_
  rw [peek_of_rest_nil hs]
  exact nofun

theorem atKeyword_of_nil {s : Source} (hs : s.rest = []) (word : String) :
    s.atKeyword word = false := by
  unfold atKeyword word?
  rw [peek_of_rest_nil hs]

namespace Source.Tracks

variable {T : List Char} {k : Nat} {s s' : Source} (h : s.Tracks T k s') (hT : Detached T)
include h hT

theorem eat {c : Char} (hc : c ∈ joining) :
    Sees T k s.remaining (s.skipBlanks.eat c) (s'.skipBlanks.eat c) :=
  h.sees (fun _ ht => eat_of_nil ht c) (hT.eat hc)
    fun _ _ ht => ht.eat fun hhead => hT.head c hhead hc

theorem eatText {text : String} (htext : text.toList ≠ [])
    (hjoining : text.toList ⊆ joining) :
    Sees T k s.remaining (s.skipBlanks.eatText text) (s'.skipBlanks.eatText text) :=
  h.sees (fun _ ht => eatText_of_nil ht htext) (hT.eatText htext hjoining)
    fun _ _ ht => ht.eatText htext fun c hc hmem => hT.head c hc (hjoining hmem)

theorem eatOp {text : String} {notBefore : List Char} (htext : text.toList ≠ [])
    (hjoining : text.toList ++ notBefore ⊆ joining) :
    Sees T k s.remaining (s.skipBlanks.eatOp text notBefore)
      (s'.skipBlanks.eatOp text notBefore) := by
  refine h.sees (fun t ht => ?_) (hT.eatOp notBefore htext fun _ hc =>
    hjoining (List.mem_append_left _ hc)) fun _ _ ht => ht.eatOp htext fun c hc hmem =>
      hT.head c hc (hjoining hmem)
  unfold Source.eatOp
  rw [eatText_of_nil ht htext]

theorem eatKeyword {word : String} (hword : word ∈ joiningWords) :
    Sees T k s.remaining (s.skipBlanks.eatKeyword word) (s'.skipBlanks.eatKeyword word) := by
  refine h.sees (fun t ht => ?_) (hT.eatKeyword hword) fun _ _ ht => ht.eatKeyword hT word
  unfold Source.eatKeyword
  rw [atKeyword_of_nil ht]
  rfl

theorem atKeyword_eq {word : String} (hword : word ∈ joiningWords) :
    s'.skipBlanks.atKeyword word = s.skipBlanks.atKeyword word := by
  obtain ⟨-, hsame⟩ | ⟨hnil, pos, hpos⟩ := h.cases
  · exact hsame.atKeyword_eq hT word
  · rw [hpos, hT.word word hword, atKeyword_of_nil hnil]

theorem peek_eq_iff {c : Char} (hc : c ∈ joining) :
    s'.skipBlanks.peek = some c ↔ s.skipBlanks.peek = some c := by
  obtain ⟨-, hsame⟩ | ⟨hnil, pos, hpos⟩ := h.cases
  · exact hsame.peek_eq_iff fun hhead => hT.head c hhead hc
  · rw [hpos, peek_of_rest_nil hnil]
    exact iff_of_false (hT.peek hc pos _) nofun

end Source.Tracks

/-! ## A point that is left -/

/-- A point stands here.  Behind an operand nothing can be made of it. -/
def Source.Dangling (s : Source) : Prop := s.peek = some '.'

namespace Source.Dangling

variable {s : Source} (h : s.Dangling)
include h

theorem exists_rest : ∃ rest, s = ⟨'.' :: rest, s.pos, s.marks⟩ := Source.exists_of_peek h

theorem skipBlanks_eq : s.skipBlanks = s := by
  obtain ⟨rest, hs⟩ := h.exists_rest
  rw [hs]
  exact skipBlanks_of_solid rfl _ _ _

theorem eat {c : Char} (hc : c ≠ '.') : s.eat c = none := by
  obtain ⟨rest, hs⟩ := h.exists_rest
  rw [hs]
  exact eat_of_ne hc.symm _ _ _

theorem eatText {text : String} {c : Char} {cs : List Char} (htext : text.toList = c :: cs)
    (hc : c ≠ '.') : s.eatText text = none := by
  obtain ⟨rest, hs⟩ := h.exists_rest
  rw [hs]
  exact eatText_of_ne hc.symm htext _ _ _

theorem word? : s.word? = none := by
  obtain ⟨rest, hs⟩ := h.exists_rest
  rw [hs]
  rfl

theorem atKeyword (word : String) : s.atKeyword word = false := by
  unfold Source.atKeyword
  rw [h.word?]

theorem eatKeyword (word : String) : s.eatKeyword word = none := by
  unfold Source.eatKeyword
  rw [h.atKeyword]
  rfl

theorem expect {c : Char} (hc : c ≠ '.') (what : String) :
    s.expect c what = s.fail (.expected what) := by
  unfold Source.expect
  rw [h.skipBlanks_eq, h.eat hc]

end Source.Dangling

/-- At the end of a text no point is left. -/
theorem Source.not_dangling_of_end {s : Source} (hend : s.skipBlanks.rest = []) : ¬ s.Dangling := by
  intro h
  obtain ⟨rest, hs⟩ := h.exists_rest
  rw [h.skipBlanks_eq, hs] at hend
  cases hend

/-- Behind the end of a text there is what comes behind it. -/
theorem Source.Tracks.at_of_end {T : List Char} {k : Nat} {s s' : Source} (h : s.Tracks T k s')
    (hend : s.skipBlanks.rest = []) : s'.At T (s.marks + k) := by
  refine ⟨?_, h.2⟩
  rw [h.1, List.dropWhile_append, ← rest_skipBlanks, hend]
  rfl

/-! ## Readers -/

/-- What is read leaves less than `n` characters, and in the longer text the same is read, up to the
same place. -/
def Keeps (T : List Char) (k n : Nat) (r r' : Except SyntaxError (α × Source)) : Prop :=
  Yields r fun x t => t.rest.length < n ∧ ∃ t', r' = .ok (x, t') ∧ t.Prolonged T k t'

/-- What is read leaves less than `n` characters, and in the longer text `f` of it is read, up to
the same place, unless a point is left behind it. -/
def Carries (T : List Char) (k n : Nat) (f : α → α) (r r' : Except SyntaxError (α × Source)) :
    Prop :=
  Yields r fun x t => t.rest.length < n ∧
    (¬ t.Dangling → ∃ t', r' = .ok (f x, t') ∧ t.Tracks T k t')

/-- What is read leaves less than `n` characters, of which the first is a point. -/
def LeavesPoint (n : Nat) (r : Except SyntaxError (α × Source)) : Prop :=
  Yields r fun _ t => t.rest.length < n ∧ t.Dangling

section
variable {T : List Char} {k m n : Nat} {s s' t t' : Source} {f : α → α} {g : β → β}

/-- A character that has to follow is passed in both texts. -/
theorem expect_prolonged {u : Source} (hs : s.Tracks T k s') {c : Char} {what : String}
    (h : s.expect c what = .ok u) :
    u.rest.length < s.remaining ∧ ∃ u', s'.expect c what = .ok u' ∧ u.Prolonged T k u' := by
  unfold Source.expect at h ⊢
  obtain ⟨hne, hsame⟩ | ⟨hnil, -⟩ := hs.cases
  · have hpeek := hsame.peek_eq hne
    unfold Source.eat at h ⊢
    rw [hpeek]
    by_cases hc : s.skipBlanks.peek = some c
    · rw [if_pos hc] at h
      rw [if_pos hc]
      obtain rfl := Except.ok.inj h
      exact ⟨length_skip_lt hne Nat.one_pos, _, rfl, hsame.skip (List.length_pos_of_ne_nil hne)⟩
    · rw [if_neg hc] at h
      cases h
  · rw [eat_of_nil hnil] at h
    cases h

namespace Keeps

theorem ok {x : α} (hn : t.rest.length < n) (ht : t.Prolonged T k t') :
    Keeps T k n (.ok (x, t)) (.ok (x, t')) :=
  Yields.ok ⟨hn, t', rfl, ht⟩

theorem error (e : SyntaxError) (r' : Except SyntaxError (α × Source)) :
    Keeps T k n (.error e) r' := Yields.error e

theorem fail (s : Source) (what : Complaint) (r' : Except SyntaxError (α × Source)) :
    Keeps T k n (s.fail what) r' := error _ r'

theorem bind {r r' : Except SyntaxError (α × Source)}
    {next next' : α × Source → Except SyntaxError (β × Source)} (hr : Keeps T k m r r')
    (hnext : ∀ x t t', t.rest.length < m → t.Prolonged T k t' →
      Keeps T k n (next (x, t)) (next' (x, t'))) :
    Keeps T k n (r >>= next) (r' >>= next') := by
  refine Yields.bind hr ?_
  rintro x t ⟨hm, t', rfl, ht⟩
  exact hnext x t t' hm ht

theorem expect (hs : s.Tracks T k s') (c : Char) (what : String)
    {next next' : Source → Except SyntaxError (α × Source)}
    (hnext : ∀ t t', t.rest.length < s.remaining → t.Prolonged T k t' →
      Keeps T k n (next t) (next' t')) :
    Keeps T k n (s.expect c what >>= next) (s'.expect c what >>= next') := by
  cases hexpect : s.expect c what with
  | error e => exact error e _
  | ok t =>
    obtain ⟨hlt, t', ht', hsame⟩ := expect_prolonged hs hexpect
    rw [ht']
    exact hnext t t' hlt hsame

theorem map {r r' : Except SyntaxError (α × Source)} (h : Keeps T k n r r')
    {before : α × Source → β × Source} (y : α → β) (hbefore : ∀ x t, before (x, t) = (y x, t)) :
    Keeps T k n (r.map before) (r'.map before) := by
  refine Yields.map h ?_
  rintro x t ⟨hn, t', rfl, ht⟩
  rw [hbefore]
  refine ⟨hn, t', ?_, ht⟩
  show Except.ok (before (x, t')) = _
  rw [hbefore]

theorem mono {r r' : Except SyntaxError (α × Source)} (h : Keeps T k m r r') (hmn : m ≤ n) :
    Keeps T k n r r' :=
  fun x t hr => ⟨Nat.lt_of_lt_of_le (h x t hr).1 hmn, (h x t hr).2⟩

end Keeps

namespace Carries

theorem ok {x x' : α} (hn : t.rest.length < n) (ht : t.Tracks T k t') (hx : f x = x') :
    Carries T k n f (.ok (x, t)) (.ok (x', t')) :=
  Yields.ok ⟨hn, fun _ => ⟨t', by rw [hx], ht⟩⟩

theorem error (e : SyntaxError) (r' : Except SyntaxError (α × Source)) :
    Carries T k n f (.error e) r' := Yields.error e

theorem fail (s : Source) (what : Complaint) (r' : Except SyntaxError (α × Source)) :
    Carries T k n f (s.fail what) r' := error _ r'

theorem mono {r r' : Except SyntaxError (α × Source)} (h : Carries T k m f r r') (hmn : m ≤ n) :
    Carries T k n f r r' :=
  fun x t hr => ⟨Nat.lt_of_lt_of_le (h x t hr).1 hmn, (h x t hr).2⟩

theorem bind {r r' : Except SyntaxError (α × Source)}
    {next next' : α × Source → Except SyntaxError (β × Source)} (hr : Carries T k m f r r')
    (hpoint : ∀ x t, t.rest.length < m → t.Dangling → LeavesPoint n (next (x, t)))
    (hnext : ∀ x t t', t.rest.length < m → t.Tracks T k t' →
      Carries T k n g (next (x, t)) (next' (f x, t'))) :
    Carries T k n g (r >>= next) (r' >>= next') := by
  refine Yields.bind hr ?_
  rintro x t ⟨hm, hcarries⟩
  by_cases hdangling : t.Dangling
  · intro y u hu
    obtain ⟨hn, hleft⟩ := hpoint x t hm hdangling y u hu
    exact ⟨hn, fun hnot => absurd hleft hnot⟩
  · obtain ⟨t', rfl, ht⟩ := hcarries hdangling
    exact hnext x t t' hm ht

theorem of_keeps {r r' : Except SyntaxError (α × Source)}
    {next next' : α × Source → Except SyntaxError (β × Source)} (hr : Keeps T k m r r')
    (hnext : ∀ x t t', t.rest.length < m → t.Prolonged T k t' →
      Carries T k n g (next (x, t)) (next' (x, t'))) :
    Carries T k n g (r >>= next) (r' >>= next') := by
  refine Yields.bind hr ?_
  rintro x t ⟨hm, t', rfl, ht⟩
  exact hnext x t t' hm ht

/-- What is read alike is carried over, if what is made of it is left as it is. -/
theorem of_keeps_map {r r' : Except SyntaxError (α × Source)} (h : Keeps T k n r r')
    {before : α × Source → β × Source} (y : α → β) (hbefore : ∀ x t, before (x, t) = (y x, t))
    (hy : ∀ x, g (y x) = y x) : Carries T k n g (r.map before) (r'.map before) := by
  refine Yields.map h ?_
  rintro x t ⟨hn, t', rfl, ht⟩
  rw [hbefore]
  refine ⟨hn, fun _ => ⟨t', ?_, ht.tracks⟩⟩
  show Except.ok (before (x, t')) = _
  rw [hbefore, hy]

theorem expect (hs : s.Tracks T k s') (c : Char) (what : String)
    {next next' : Source → Except SyntaxError (α × Source)}
    (hnext : ∀ t t', t.rest.length < s.remaining → t.Prolonged T k t' →
      Carries T k n f (next t) (next' t')) :
    Carries T k n f (s.expect c what >>= next) (s'.expect c what >>= next') := by
  cases hexpect : s.expect c what with
  | error e => exact error e _
  | ok t =>
    obtain ⟨hlt, t', ht', hsame⟩ := expect_prolonged hs hexpect
    rw [ht']
    exact hnext t t' hlt hsame

end Carries

theorem LeavesPoint.carries {r : Except SyntaxError (α × Source)} (h : LeavesPoint n r)
    (r' : Except SyntaxError (α × Source)) : Carries T k n f r r' :=
  fun x t hr => ⟨(h x t hr).1, fun hnot => absurd (h x t hr).2 hnot⟩

end

end DocWire
