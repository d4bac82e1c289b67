import SampleData.Toml.Quoted
import Mathlib.Data.List.Basic

/-!
# Quoted texts in TOML read back

A text is written in one of four forms, and is read as it was written in whichever it is. Within
three quotes the reader cannot tell the quotes of a text from the closing ones until it sees what
comes behind them; so what is said of a text is said of one behind up to two quotes that are still
open to either.

* `readBasic_written`, `readLiteral_written`: texts between quotes that stand alone.
* `readMultiBasic_written`, `readMultiLiteral_written`: texts between three quotes.
* `readQuoted_write`: a text in the form that is chosen for it.
-/

namespace SampleData.Toml

open Text

/-! ## Escapes -/

/-- The four digits of a code point of ASCII give its character. -/
theorem codePoint?_of_lt {n : Nat} (h : n < 0x80) :
    codePoint? ['0', '0', upperHexDigit (n / 16), upperHexDigit (n % 16)] =
      some (Char.ofNat n) := by
  have hall : ∀ n < 0x80, codePoint? ['0', '0', upperHexDigit (n / 16), upperHexDigit (n % 16)] =
      some (Char.ofNat n) := by decide
  exact hall n h

/-- The letter of an escape: it says which character is meant, and starts neither a code point nor
the end of a line. -/
structure IsEscape (e c : Char) : Prop where
  short : shortEscape? e = some c
  ne_u : e ≠ 'u'
  ne_U : e ≠ 'U'
  not_space : isSpace e = false
  not_break : e ≠ '\n' ∧ e ≠ '\r'

/-- A character between double quotes is written as an escape of one letter, as a code point of
ASCII, or as it stands. -/
theorem writeChar_cases (c : Char) :
    (∃ e, IsEscape e c ∧ writeChar c = ['\\', e]) ∨
      (c.toNat < 0x80 ∧ writeChar c =
        ['\\', 'u', '0', '0', upperHexDigit (c.toNat / 16), upperHexDigit (c.toNat % 16)]) ∨
      (isPlain c ∧ c ≠ '\\' ∧ writeChar c = [c]) := by
  by_cases hb : c = '\x08'
  · exact .inl ⟨'b', by rw [hb]; constructor <;> decide, by rw [hb]; rfl⟩
  by_cases ht : c = '\t'
  · exact .inl ⟨'t', by rw [ht]; constructor <;> decide, by rw [ht]; rfl⟩
  by_cases hf : c = '\x0c'
  · exact .inl ⟨'f', by rw [hf]; constructor <;> decide, by rw [hf]; rfl⟩
  by_cases hr : c = '\r'
  · exact .inl ⟨'r', by rw [hr]; constructor <;> decide, by rw [hr]; rfl⟩
  by_cases hslash : c = '\\'
  · exact .inl ⟨'\\', by rw [hslash]; constructor <;> decide, by rw [hslash]; rfl⟩
  right
  simp only [writeChar, if_neg hb, if_neg ht, if_neg hf, if_neg hr, if_neg hslash]
  by_cases hplain : isPlain c
  · rw [if_pos hplain]
    exact .inr ⟨hplain, hslash, rfl⟩
  · rw [if_neg hplain]
    refine .inl ⟨?_, rfl⟩
    simp only [isPlain, ht, decide_false, Bool.false_or, Bool.and_eq_true, decide_eq_true_eq,
      not_and, Decidable.not_not] at hplain
    by_contra hge
    have := hplain (by omega)
    omega

/-- What is written for a character starts with a backslash, or is the character. -/
theorem writeChar_eq_cons (c : Char) :
    ∃ x xs, writeChar c = x :: xs ∧ (x = '\\' ∨ x = c ∧ isPlain c) := by
  rcases writeChar_cases c with ⟨e, -, hw⟩ | ⟨-, hw⟩ | ⟨hplain, -, hw⟩
  · exact ⟨_, _, hw, .inl rfl⟩
  · exact ⟨_, _, hw, .inl rfl⟩
  · exact ⟨_, _, hw, .inr ⟨rfl, hplain⟩⟩

/-- A plain character starts no line break. -/
theorem ne_of_isPlain {c : Char} (h : isPlain c) : c ≠ '\n' ∧ c ≠ '\r' := by
  constructor <;> rintro rfl <;> exact absurd h (by decide)

/-! ## Double quotes that stand alone -/

/-- An escape of one letter is read as its character. -/
theorem readBasic_escape {e c : Char} (h : IsEscape e c) (rest : List Char) :
    readBasic ('\\' :: e :: rest) = pushChar c (readBasic rest) := by
  rw [readBasic, h.short]
  · rfl
  all_goals
    intros
    first
    | exact h.ne_u ‹_›
    | exact h.ne_U ‹_›

/-- A plain character is read as it stands. -/
theorem readBasic_plain {c : Char} (h : isPlain c) (hquote : c ≠ '"') (hslash : c ≠ '\\')
    (rest : List Char) : readBasic (c :: rest) = pushChar c (readBasic rest) := by
  rw [readBasic, if_pos h]
  all_goals
    intros
    contradiction

/-- A character is read as it was written. -/
theorem readBasic_writeChar {c : Char} (hquote : c ≠ '"') (rest : List Char) :
    readBasic (writeChar c ++ rest) = pushChar c (readBasic rest) := by
  rcases writeChar_cases c with ⟨e, he, hw⟩ | ⟨hc, hw⟩ | ⟨hplain, hslash, hw⟩
  · rw [hw]
    exact readBasic_escape he rest
  · rw [hw]
    simp only [List.cons_append, List.nil_append]
    rw [readBasic, codePoint?_of_lt hc, Char.ofNat_toNat]
    rfl
  · rw [hw]
    exact readBasic_plain hplain hquote hslash rest

/-- **A text between double quotes** is read as it was written. -/
@[simp] theorem readBasic_written (cs rest : List Char) :
    readBasic (writeBasic cs ++ '"' :: rest) = .ok (cs, rest) := by
  induction cs with
  | nil => rw [writeBasic, List.nil_append, readBasic]
  | cons c cs ih =>
      rw [writeBasic]
      split
      · next hc =>
        have hquote : IsEscape '"' '"' := by constructor <;> decide
        rw [hc, List.cons_append, List.cons_append, readBasic_escape hquote, ih]
        rfl
      split
      · next hc =>
        have hbreak : IsEscape 'n' '\n' := by constructor <;> decide
        rw [hc, List.cons_append, List.cons_append, readBasic_escape hbreak, ih]
        rfl
      · next hquote _ =>
        rw [List.append_assoc, readBasic_writeChar hquote, ih]
        rfl

/-! ## Single quotes that stand alone -/

/-- **A text between single quotes** is read as it stands. -/
theorem readLiteral_written {cs : List Char} (h : ∀ c ∈ cs, isPlain c ∧ c ≠ '\x27')
    (rest : List Char) : readLiteral (cs ++ '\x27' :: rest) = .ok (cs, rest) := by
  induction cs with
  | nil => rw [List.nil_append, readLiteral]
  | cons c cs ih =>
      obtain ⟨⟨hplain, hquote⟩, hcs⟩ := List.forall_mem_cons.mp h
      rw [List.cons_append, readLiteral, if_pos hplain, ih hcs]
      · rfl
      · exact hquote

/-! ## Closing quotes -/

/-- Nothing that could be taken for a quote of a text stands here. -/
def EndsText (rest : List Char) : Prop := ∀ c ∈ rest.head?, c ≠ '"' ∧ c ≠ '\x27'

/-- The quotes that stand behind three in a row, two at most. -/
theorem closingQuotes_replicate {q : Char} {run : Nat} (hrun : run ≤ 2) {rest : List Char}
    (h : ∀ c ∈ rest.head?, c ≠ q) :
    closingQuotes q (List.replicate run q ++ rest) = (List.replicate run q, rest) := by
  match run, hrun with
  | 0, _ =>
    cases rest with
    | nil => rfl
    | cons c cs => cases cs <;> simp [closingQuotes, h c rfl]
  | 1, _ =>
    cases rest with
    | nil => simp [closingQuotes]
    | cons c cs => simp [closingQuotes, h c rfl]
  | 2, _ => simp [List.replicate, closingQuotes]

/-! ## Three double quotes -/

/-- A letter behind a backslash that is the letter of an escape does not stand at a line's end. -/
theorem endsLine_of_isEscape {e c : Char} (h : IsEscape e c) (rest : List Char) :
    endsLine (e :: rest) = false := by
  have hskip : skipSpace (e :: rest) = e :: rest := by
    rw [skipSpace, List.dropWhile_cons, h.not_space]
    rfl
  rw [endsLine, hskip, readBreak]
  · rfl
  · intro cs heq
    exact h.not_break.1 (List.cons.inj heq).1
  · intro cs heq
    exact h.not_break.2 (List.cons.inj heq).1

/-- An escape of one letter is read as its character. -/
theorem readMultiBasic_escape {e c : Char} (h : IsEscape e c) (rest : List Char) :
    readMultiBasic false ('\\' :: e :: rest) = pushChar c (readMultiBasic false rest) := by
  rw [readMultiBasic, endsLine_of_isEscape h, h.short]
  · rfl
  all_goals
    intros
    first
    | exact h.ne_u ‹_›
    | exact h.ne_U ‹_›

/-- A plain character or a line feed is read as it stands. -/
theorem readMultiBasic_plain {c : Char} (h : isPlain c ∨ c = '\n') (hquote : c ≠ '"')
    (hslash : c ≠ '\\') (rest : List Char) :
    readMultiBasic false (c :: rest) = pushChar c (readMultiBasic false rest) := by
  have hreturn : c ≠ '\r' := by
    rintro rfl
    exact absurd h (by decide)
  rw [readMultiBasic, Bool.false_and, if_neg Bool.false_ne_true,
    if_pos (by simpa using h)]
  all_goals
    intros
    contradiction

/-- A character is read as it was written. -/
theorem readMultiBasic_writeChar {c : Char} (hquote : c ≠ '"') (rest : List Char) :
    readMultiBasic false (writeChar c ++ rest) = pushChar c (readMultiBasic false rest) := by
  rcases writeChar_cases c with ⟨e, he, hw⟩ | ⟨hc, hw⟩ | ⟨hplain, hslash, hw⟩
  · rw [hw]
    exact readMultiBasic_escape he rest
  · rw [hw]
    simp only [List.cons_append, List.nil_append]
    rw [readMultiBasic, codePoint?_of_lt hc, Char.ofNat_toNat]
    rfl
  · rw [hw]
    exact readMultiBasic_plain (.inl hplain) hquote hslash rest

/-- A quote is text if neither the text's end nor two more quotes stand behind it. -/
theorem readMultiBasic_quote {rest : List Char} (hthree : ∀ more, rest ≠ '"' :: '"' :: more)
    (hone : rest ≠ ['"']) (hnil : rest ≠ []) :
    readMultiBasic false ('"' :: rest) = pushChar '"' (readMultiBasic false rest) := by
  rw [readMultiBasic, Bool.false_and, if_neg Bool.false_ne_true, if_pos (by decide)]
  · exact fun more _ => hthree more
  · exact fun _ => hone
  · exact fun _ => hnil
  all_goals
    intros
    contradiction

/-- Up to two quotes before anything else are text. -/
theorem readMultiBasic_quotes {run : Nat} (hrun : run ≤ 2) {c : Char} (hc : c ≠ '"')
    {more cs rest : List Char} (h : readMultiBasic false (c :: more) = .ok (cs, rest)) :
    readMultiBasic false (List.replicate run '"' ++ c :: more) =
      .ok (List.replicate run '"' ++ cs, rest) := by
  have hone : readMultiBasic false ('"' :: c :: more) = .ok ('"' :: cs, rest) := by
    rw [readMultiBasic_quote (by simp [hc]) (by simp [hc]) (by simp), h]
    rfl
  match run, hrun with
  | 0, _ => exact h
  | 1, _ => exact hone
  | 2, _ =>
    show readMultiBasic false ('"' :: '"' :: c :: more) = _
    rw [readMultiBasic_quote (by simp [hc]) (by simp) (by simp), hone]
    rfl

/-- A text, with quotes before it that are still open to either; an escaped quote starts their count
anew. -/
theorem readMultiBasic_written_run {run : Nat} (hrun : run ≤ 2) (cs : List Char) {rest : List Char}
    (h : EndsText rest) :
    readMultiBasic false (List.replicate run '"' ++ (writeMultiBasic run cs ++
        '"' :: '"' :: '"' :: rest)) = .ok (List.replicate run '"' ++ cs, rest) := by
  induction cs generalizing run with
  | nil =>
      -- the open quotes stand before the closing ones, and are read behind them
      have hswap : List.replicate run '"' ++ '"' :: '"' :: '"' :: rest =
          '"' :: '"' :: '"' :: (List.replicate run '"' ++ rest) := by
        match run, hrun with
        | 0, _ | 1, _ | 2, _ => rfl
      rw [writeMultiBasic, List.nil_append, List.append_nil, hswap, readMultiBasic,
        closingQuotes_replicate hrun fun c hc => (h c hc).1]
  | cons c cs ih =>
      have hnew : readMultiBasic false (writeMultiBasic 0 cs ++ '"' :: '"' :: '"' :: rest) =
          .ok (cs, rest) := ih (Nat.zero_le 2)
      rw [writeMultiBasic]
      by_cases hquote : c = '"'
      · subst hquote
        rw [if_pos rfl]
        split
        · next htwo =>
          have hescape : IsEscape '"' '"' := by constructor <;> decide
          rw [List.cons_append, List.cons_append]
          apply readMultiBasic_quotes hrun (by decide)
          rw [readMultiBasic_escape hescape, hnew]
          rfl
        · next htwo =>
          have hmore := ih (show run + 1 ≤ 2 by omega)
          simpa [List.replicate_succ'] using hmore
      rw [if_neg hquote]
      split
      · next hbreak =>
        rw [hbreak, List.cons_append]
        apply readMultiBasic_quotes hrun (by decide)
        rw [readMultiBasic_plain (.inr rfl) (by decide) (by decide), hnew]
        rfl
      · obtain ⟨x, xs, hxs, hx⟩ := writeChar_eq_cons c
        have hfirst : x ≠ '"' := by
          rcases hx with rfl | ⟨rfl, -⟩
          · decide
          · exact hquote
        have hread := readMultiBasic_writeChar hquote
          (writeMultiBasic 0 cs ++ '"' :: '"' :: '"' :: rest)
        rw [hnew, hxs] at hread
        rw [hxs, List.append_assoc]
        exact readMultiBasic_quotes hrun hfirst hread

/-- **A text between three double quotes** is read as it was written. -/
theorem readMultiBasic_written (cs : List Char) {rest : List Char} (h : EndsText rest) :
    readMultiBasic false (writeMultiBasic 0 cs ++ '"' :: '"' :: '"' :: rest) = .ok (cs, rest) :=
  readMultiBasic_written_run (Nat.zero_le 2) cs h

/-! ## Three single quotes -/

/-- A character that may stand between three single quotes and is none. -/
def IsBare (c : Char) : Prop := isPlain c ∨ c = '\n'

/-- The text goes on with a bare character. -/
theorem goesOn_of_isBare {c : Char} (h : IsBare c) (rest : List Char) : goesOn (c :: rest) := by
  rw [goesOn, Bool.or_eq_true]
  refine h.imp_right ?_
  rintro rfl
  rfl

/-- A bare character that is no quote is read as it stands. -/
theorem readMultiLiteral_plain {c : Char} (h : IsBare c) (hquote : c ≠ '\x27')
    (rest : List Char) : readMultiLiteral (c :: rest) = pushChar c (readMultiLiteral rest) := by
  have hreturn : c ≠ '\r' := by
    rintro rfl
    exact absurd h (by unfold IsBare; decide)
  rw [readMultiLiteral, if_neg (by simp [hquote]), if_pos (by simpa [IsBare] using h)]
  all_goals
    intros
    contradiction

/-- A quote is text if not two more stand behind it, and the text goes on behind what quotes do. -/
theorem readMultiLiteral_quote {rest : List Char}
    (hthree : ∀ more, rest ≠ '\x27' :: '\x27' :: more)
    (hgoes : goesOn (rest.dropWhile (· = '\x27'))) :
    readMultiLiteral ('\x27' :: rest) = pushChar '\x27' (readMultiLiteral rest) := by
  rw [readMultiLiteral, if_neg (by simp [hgoes]), if_pos (by decide)]
  · exact fun more _ => hthree more
  · intros
    contradiction

/-- Up to two quotes before a bare character are text. -/
theorem readMultiLiteral_quotes {run : Nat} (hrun : run ≤ 2) {c : Char} (hc : c ≠ '\x27')
    (hbare : IsBare c) {more cs rest : List Char}
    (h : readMultiLiteral (c :: more) = .ok (cs, rest)) :
    readMultiLiteral (List.replicate run '\x27' ++ c :: more) =
      .ok (List.replicate run '\x27' ++ cs, rest) := by
  have hgoes := goesOn_of_isBare hbare more
  have hone : readMultiLiteral ('\x27' :: c :: more) = .ok ('\x27' :: cs, rest) := by
    rw [readMultiLiteral_quote (by simp [hc]) (by simpa [hc] using hgoes), h]
    rfl
  match run, hrun with
  | 0, _ => exact h
  | 1, _ => exact hone
  | 2, _ =>
    show readMultiLiteral ('\x27' :: '\x27' :: c :: more) = _
    rw [readMultiLiteral_quote (by simp [hc]) (by simpa [hc] using hgoes), hone]
    rfl

/-- The longest run is no shorter than the one before the text. -/
theorem le_longestRun (q : Char) (run : Nat) (cs : List Char) : run ≤ longestRun q run cs := by
  induction cs generalizing run with
  | nil => exact Nat.le_refl run
  | cons c cs ih =>
      rw [longestRun]
      split
      · exact Nat.le_trans (Nat.le_succ run) (ih (run + 1))
      · exact Nat.le_max_left _ _

/-- A text of bare characters, with quotes before it that are still open to either. -/
theorem readMultiLiteral_written_run {run : Nat} {cs : List Char} (hbare : ∀ c ∈ cs, IsBare c)
    (hrun : longestRun '\x27' run cs ≤ 2) {rest : List Char} (h : EndsText rest) :
    readMultiLiteral (List.replicate run '\x27' ++ (cs ++ '\x27' :: '\x27' :: '\x27' :: rest)) =
      .ok (List.replicate run '\x27' ++ cs, rest) := by
  have htwo : run ≤ 2 := Nat.le_trans (le_longestRun '\x27' run cs) hrun
  induction cs generalizing run with
  | nil =>
      have hswap : List.replicate run '\x27' ++ '\x27' :: '\x27' :: '\x27' :: rest =
          '\x27' :: '\x27' :: '\x27' :: (List.replicate run '\x27' ++ rest) := by
        match run, htwo with
        | 0, _ | 1, _ | 2, _ => rfl
      rw [List.nil_append, List.append_nil, hswap, readMultiLiteral,
        closingQuotes_replicate htwo fun c hc => (h c hc).2]
  | cons c cs ih =>
      obtain ⟨hc, hcs⟩ := List.forall_mem_cons.mp hbare
      rw [longestRun] at hrun
      split at hrun
      · next hquote =>
        have hmore := ih hcs hrun (Nat.le_trans (le_longestRun _ _ cs) hrun)
        rw [hquote]
        simpa [List.replicate_succ'] using hmore
      · next hquote =>
        have hnew := ih hcs (Nat.le_trans (Nat.le_max_right _ _) hrun) (Nat.zero_le 2)
        rw [List.cons_append]
        apply readMultiLiteral_quotes htwo hquote hc
        rw [readMultiLiteral_plain hc hquote]
        simp only [List.replicate_zero, List.nil_append] at hnew
        rw [hnew]
        rfl

/-- **A text between three single quotes** is read as it stands. -/
theorem readMultiLiteral_written {cs : List Char} (hbare : ∀ c ∈ cs, IsBare c)
    (hrun : longestRun '\x27' 0 cs ≤ 2) {rest : List Char} (h : EndsText rest) :
    readMultiLiteral (cs ++ '\x27' :: '\x27' :: '\x27' :: rest) = .ok (cs, rest) :=
  readMultiLiteral_written_run hbare hrun h

/-! ## The form that is chosen -/

/-- The line break that is put behind three quotes is dropped, and no other one. -/
theorem dropBreak_openingBreak {cs more : List Char}
    (h : '\n' ∉ cs → ∀ c ∈ more.head?, c ≠ '\n' ∧ c ≠ '\r') :
    dropBreak (openingBreak cs ++ more) = more := by
  unfold openingBreak
  by_cases hbreak : '\n' ∈ cs
  · rw [if_pos (List.contains_iff_mem.mpr hbreak)]
    rfl
  · rw [if_neg (by simpa using hbreak), List.nil_append, dropBreak]
    have hfirst := h hbreak
    cases more with
    | nil => rfl
    | cons c more =>
        obtain ⟨hn, hr⟩ := hfirst c rfl
        have hnone : readBreak (c :: more) = none := by
          unfold readBreak
          split
          · next heq => exact absurd (List.cons.inj heq).1 hn
          · next heq => exact absurd (List.cons.inj heq).1 hr
          · rfl
        rw [hnone]
        rfl

/-- A text without line breaks is written without one at its start. -/
theorem head_writeMultiBasic {cs : List Char} (h : '\n' ∉ cs) (more : List Char) :
    ∀ c ∈ (writeMultiBasic 0 cs ++ '"' :: more).head?, c ≠ '\n' ∧ c ≠ '\r' := by
  cases cs with
  | nil =>
      rintro c ⟨⟩
      decide
  | cons c cs =>
      rw [writeMultiBasic]
      split
      · rw [if_neg (by decide)]
        rintro c ⟨⟩
        decide
      rw [if_neg (fun heq => h (by rw [heq]; exact List.mem_cons_self))]
      obtain ⟨x, xs, hxs, hx⟩ := writeChar_eq_cons c
      rw [hxs]
      rintro y ⟨⟩
      rcases hx with rfl | ⟨rfl, hplain⟩
      · decide
      · exact ne_of_isPlain hplain

/-- Single quotes are chosen for a text that may stand between them. -/
theorem of_eq_literal {cs : List Char} (h : Quoting.of cs = .literal) :
    ∀ c ∈ cs, isPlain c ∧ c ≠ '\x27' := by
  unfold Quoting.of at h
  dsimp only at h
  split at h
  · cases h
  split at h
  · next hliteral =>
    simp only [isUncontrolled, Bool.and_eq_true, List.all_eq_true, Bool.or_eq_true,
      decide_eq_true_eq, Bool.not_eq_true', List.contains_eq_mem, decide_eq_false_iff_not]
      at hliteral
    obtain ⟨⟨hbare, hbreak⟩, hquote⟩ := hliteral
    intro c hc
    refine ⟨(hbare c hc).resolve_right ?_, ?_⟩ <;> rintro rfl
    · exact hbreak hc
    · exact hquote hc
  · repeat' split at h
    all_goals cases h

/-- Three single quotes are chosen for a text that may stand between them. -/
theorem of_eq_multiLiteral {cs : List Char} (h : Quoting.of cs = .multiLiteral) :
    (∀ c ∈ cs, IsBare c) ∧ longestRun '\x27' 0 cs ≤ 2 := by
  unfold Quoting.of at h
  dsimp only at h
  split at h
  · cases h
  split at h
  · cases h
  split at h
  · cases h
  split at h
  · next hmulti =>
    simp only [isUncontrolled, Bool.and_eq_true, List.all_eq_true, Bool.or_eq_true,
      decide_eq_true_eq] at hmulti
    exact hmulti
  · split at h <;> cases h

/-- No quote of a text between double quotes stands directly behind the opening one. -/
theorem head_writeBasic {c : Char} {cs more : List Char} :
    ∀ x ∈ (writeBasic (c :: cs) ++ more).head?, x ≠ '"' := by
  rw [writeBasic]
  split
  · rintro x ⟨⟩
    decide
  split
  · rintro x ⟨⟩
    decide
  · next hquote _ =>
    obtain ⟨x, xs, hxs, hx⟩ := writeChar_eq_cons c
    rw [hxs]
    rintro y ⟨⟩
    rcases hx with rfl | ⟨rfl, -⟩
    · decide
    · exact hquote

/-- **A text in quotes** is read as the text, with anything behind it but a quote. -/
theorem readQuoted_write (cs : List Char) {rest : List Char} (h : EndsText rest) :
    readQuoted (write cs ++ rest) = .ok (cs, rest) := by
  unfold write
  cases hform : Quoting.of cs with
  | basic =>
      have hone : ∀ more, writeBasic cs ++ '"' :: rest ≠ '"' :: '"' :: more := by
        intro more heq
        cases cs with
        | nil =>
          have hrest : rest = '"' :: more := (List.cons.inj heq).2
          exact (h '"' (by rw [hrest]; rfl)).1 rfl
        | cons c cs => exact head_writeBasic '"' (by rw [heq]; rfl) rfl
      simp only [writeAs, List.cons_append, List.append_assoc, List.nil_append]
      rw [readQuoted]
      · exact readBasic_written cs rest
      · exact hone
  | literal =>
      have hcs := of_eq_literal hform
      simp only [writeAs, List.cons_append, List.append_assoc, List.nil_append]
      rw [readQuoted]
      · exact readLiteral_written hcs rest
      · intro more heq
        cases cs with
        | nil =>
          have hrest : rest = '\x27' :: more := (List.cons.inj heq).2
          exact (h '\x27' (by rw [hrest]; rfl)).2 rfl
        | cons c cs => exact (hcs c List.mem_cons_self).2 (List.cons.inj heq).1
  | multiBasic =>
      simp only [writeAs, List.cons_append, List.append_assoc, List.nil_append]
      rw [readQuoted, dropBreak_openingBreak fun hbreak => head_writeMultiBasic hbreak _]
      exact readMultiBasic_written cs h
  | multiLiteral =>
      obtain ⟨hbare, hrun⟩ := of_eq_multiLiteral hform
      simp only [writeAs, List.cons_append, List.append_assoc, List.nil_append]
      rw [readQuoted, dropBreak_openingBreak]
      · exact readMultiLiteral_written hbare hrun h
      · intro hbreak c hc
        cases cs with
        | nil =>
          cases hc
          decide
        | cons d cs =>
          cases hc
          exact ne_of_isPlain ((hbare c List.mem_cons_self).resolve_right
            fun heq => hbreak (by rw [heq]; exact List.mem_cons_self))

end SampleData.Toml
