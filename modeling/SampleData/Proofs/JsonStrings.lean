import SampleData.Json.Printer
import SampleData.Json.Quoted
import Mathlib.Data.List.TakeWhile

/-!
# Strings in JSON text

A string is read character by character. A character stands as it is, unless it is a quote, a
backslash or a control character; or there is an escape in its place, of one letter or of the four
digits of its code unit, or of two halves of a surrogate pair. The closing quote is the first quote
that is no escape. Of the texts that a string has one is written, which has no line feed in it.

* `SpellsChars`: the texts of a string.
* `readString_iff`: the strings that are read.
* `charsOf_stringPieces`, `spellsChars_written`: the text that is written.
* `lineFeed_not_mem_stringPieces`: it stands on one line.
-/

namespace SampleData.Json

open Text

/-! ## What is written -/

/-- The characters of pieces, one after the other. -/
def charsOf (ps : List String) : List Char := ps.flatMap String.toList

/-- The characters that a character of a string is written as. -/
def writtenChar (c : Char) : List Char :=
  match escape? c with
  | some e => e.toList
  | none => [c]

@[simp] theorem charsOf_nil : charsOf [] = [] := rfl

@[simp] theorem charsOf_cons (p : String) (ps : List String) :
    charsOf (p :: ps) = p.toList ++ charsOf ps := rfl

@[simp] theorem charsOf_append (ps qs : List String) :
    charsOf (ps ++ qs) = charsOf ps ++ charsOf qs := List.flatMap_append

/-- Characters without escapes are written as they stand. -/
theorem flatMap_writtenChar_of_isPlain {cs : List Char} (h : ∀ c ∈ cs, isPlain c) :
    cs.flatMap writtenChar = cs := by
  induction cs with
  | nil => rfl
  | cons c cs ih =>
      have hc : escape? c = none := Option.isNone_iff_eq_none.mp (h c List.mem_cons_self)
      rw [List.flatMap_cons, ih fun x hx => h x (List.mem_cons_of_mem c hx), writtenChar, hc]
      rfl

/-- The pieces of characters, runs of plain ones included, are the characters one by one. -/
theorem charsOf_characterPieces (cs : List Char) :
    charsOf (characterPieces cs) = cs.flatMap writtenChar := by
  induction cs using characterPieces.induct with
  | case1 => simp [characterPieces]
  | case2 c rest e he ih =>
      rw [characterPieces, he]
      simp only [charsOf_cons, ih, List.flatMap_cons, writtenChar, he]
  | case3 c rest hc ih =>
      rw [characterPieces, hc]
      have hrun : (rest.takeWhile isPlain).flatMap writtenChar = rest.takeWhile isPlain :=
        flatMap_writtenChar_of_isPlain fun x hx => List.mem_takeWhile_imp hx
      have hsplit : rest.flatMap writtenChar =
          rest.takeWhile isPlain ++ (rest.dropWhile isPlain).flatMap writtenChar := by
        conv => lhs; rw [← List.takeWhile_append_dropWhile (p := isPlain) (l := rest)]
        rw [List.flatMap_append, hrun]
      simp only [charsOf_cons, String.toList_ofList, ih, List.flatMap_cons, writtenChar, hc, hsplit]
      rfl

/-- A string is written between quotes. -/
theorem charsOf_stringPieces (s : String) :
    charsOf (stringPieces s) = '"' :: (s.toList.flatMap writtenChar ++ ['"']) := by
  simp [stringPieces, charsOf_characterPieces]

/-- A character is written as an escape of one letter, as the code of a control character, or as it
stands. -/
theorem writtenChar_cases (c : Char) :
    (∃ e, shortEscape? e = some c ∧ writtenChar c = ['\\', e]) ∨
      (c.toNat < 0x20 ∧ writtenChar c =
        ['\\', 'u', '0', '0', hexDigit (c.toNat / 16), hexDigit (c.toNat % 16)]) ∨
      (c ≠ '"' ∧ c ≠ '\\' ∧ ¬ c.toNat < 0x20 ∧ writtenChar c = [c]) := by
  by_cases hquote : c = '"'
  · exact .inl ⟨'"', by rw [hquote]; rfl, by rw [hquote]; rfl⟩
  by_cases hslash : c = '\\'
  · exact .inl ⟨'\\', by rw [hslash]; rfl, by rw [hslash]; rfl⟩
  by_cases hb : c = '\x08'
  · exact .inl ⟨'b', by rw [hb]; rfl, by rw [hb]; rfl⟩
  by_cases hf : c = '\x0c'
  · exact .inl ⟨'f', by rw [hf]; rfl, by rw [hf]; rfl⟩
  by_cases hn : c = '\n'
  · exact .inl ⟨'n', by rw [hn]; rfl, by rw [hn]; rfl⟩
  by_cases hr : c = '\r'
  · exact .inl ⟨'r', by rw [hr]; rfl, by rw [hr]; rfl⟩
  by_cases ht : c = '\t'
  · exact .inl ⟨'t', by rw [ht]; rfl, by rw [ht]; rfl⟩
  right
  simp only [writtenChar, escape?, if_neg hquote, if_neg hslash, if_neg hb, if_neg hf, if_neg hn,
    if_neg hr, if_neg ht]
  by_cases hc : c.toNat < 0x20
  · rw [if_pos hc]
    exact .inl ⟨hc, String.toList_ofList⟩
  · rw [if_neg hc]
    exact .inr ⟨hquote, hslash, hc, rfl⟩

/-! ## The texts of a string -/

/-- What may stand for a character between quotes. -/
inductive SpellsChar : Char → List Char → Prop
  | plain {c : Char} (hquote : c ≠ '"') (hslash : c ≠ '\\') (hcontrol : ¬ c.toNat < 0x20) :
      SpellsChar c [c]
  | letter {e c : Char} (h : shortEscape? e = some c) : SpellsChar c ['\\', e]
  | unit {a b c d : Char} {n : Nat} (h : codeUnit? a b c d = some n)
      (hhigh : isHighSurrogate n = false) (hlow : isLowSurrogate n = false) :
      SpellsChar (Char.ofNat n) ['\\', 'u', a, b, c, d]
  | pair {a b c d a' b' c' d' : Char} {m n : Nat} (h : codeUnit? a b c d = some m)
      (h' : codeUnit? a' b' c' d' = some n) (hhigh : isHighSurrogate m = true)
      (hlow : isLowSurrogate n = true) :
      SpellsChar (pairedChar m n) ['\\', 'u', a, b, c, d, '\\', 'u', a', b', c', d']

/-- What may stand for a string between quotes. -/
inductive SpellsChars : List Char → List Char → Prop
  | nil : SpellsChars [] []
  | cons {c : Char} {s t ts : List Char} (h : SpellsChar c t) (hs : SpellsChars s ts) :
      SpellsChars (c :: s) (t ++ ts)

/-! ## What is read -/

/-- An escape of one letter is read as its character. -/
theorem readString_letter {e c : Char} (h : shortEscape? e = some c) (rest : List Char) :
    readString none ('\\' :: e :: rest) = pushChar c (readString none rest) := by
  have hu : e ≠ 'u' := by
    rintro rfl
    cases h
  rw [readString, h]
  · rfl
  · intro x1 x2 x3 x4 x5 heq
    exact absurd heq hu
  · intro heq
    exact absurd heq hu

/-- A code unit that is no half of a pair is read as its character. -/
theorem readString_unit {a b c d : Char} {n : Nat} (h : codeUnit? a b c d = some n)
    (hhigh : isHighSurrogate n = false) (hlow : isLowSurrogate n = false) (rest : List Char) :
    readString none ('\\' :: 'u' :: a :: b :: c :: d :: rest) =
      pushChar (Char.ofNat n) (readString none rest) := by
  rw [readString, h]
  simp only [hhigh, hlow, Bool.false_eq_true, if_false]

/-- The first half of a pair waits for the second one. -/
theorem readString_high {a b c d : Char} {m : Nat} (h : codeUnit? a b c d = some m)
    (hhigh : isHighSurrogate m = true) (rest : List Char) :
    readString none ('\\' :: 'u' :: a :: b :: c :: d :: rest) = readString (some m) rest := by
  rw [readString, h]
  simp only [hhigh, if_true]

/-- The second half of a pair is read as the character of both. -/
theorem readString_low {a b c d : Char} {n : Nat} (h : codeUnit? a b c d = some n)
    (hlow : isLowSurrogate n = true) (m : Nat) (rest : List Char) :
    readString (some m) ('\\' :: 'u' :: a :: b :: c :: d :: rest) =
      pushChar (pairedChar m n) (readString none rest) := by
  rw [readString, h]
  simp only [hlow, if_true]

/-- A plain character is read as it stands. -/
theorem readString_plain {c : Char} (hquote : c ≠ '"') (hslash : c ≠ '\\') (h : ¬ c.toNat < 0x20)
    (rest : List Char) : readString none (c :: rest) = pushChar c (readString none rest) := by
  rw [readString, if_neg h]
  · rfl
  · exact hquote
  all_goals
    intros
    contradiction

/-- Each character is read from its texts. -/
theorem SpellsChar.readString_append {c : Char} {t : List Char} (h : SpellsChar c t)
    (rest : List Char) : readString none (t ++ rest) = pushChar c (readString none rest) := by
  cases h with
  | plain hquote hslash hcontrol => exact readString_plain hquote hslash hcontrol rest
  | letter h => exact readString_letter h rest
  | unit h hhigh hlow => exact readString_unit h hhigh hlow rest
  | pair h h' hhigh hlow => exact (readString_high h hhigh _).trans (readString_low h' hlow _ rest)

/-- A string is read from its texts, with anything behind the closing quote. -/
theorem SpellsChars.readString_append {s ts : List Char} (h : SpellsChars s ts) (rest : List Char) :
    readString none (ts ++ '"' :: rest) = .ok (.ok s, rest) := by
  induction h with
  | nil =>
      rw [List.nil_append, readString]
      rfl
  | cons hc _ ih =>
      rw [List.append_assoc, hc.readString_append, ih]
      rfl

section reading

variable {x : StringReading} {s rest : List Char} {flaw : Flaw} {place : Place} {shown : Nat}

theorem pushChar_eq_ok {c : Char} (h : pushChar c x = .ok (.ok s, rest)) :
    ∃ s', x = .ok (.ok s', rest) ∧ s = c :: s' := by
  match x, h with
  | .ok (.ok s', rest'), h =>
      obtain ⟨hs, rfl⟩ := Prod.mk.inj (Except.ok.inj h)
      exact ⟨s', rfl, (Except.ok.inj hs).symm⟩

theorem spoil_ne_ok : spoil flaw place shown x ≠ .ok (.ok s, rest) := by
  cases x with
  | error e => exact nofun
  | ok p => exact fun h => nomatch (Prod.mk.inj (Except.ok.inj h)).1

theorem refuseDigits_ne_ok : refuseDigits place ≠ .ok (.ok s, rest) := by
  unfold refuseDigits
  split <;> exact nofun

theorem halfAlone_eq_ok {high : Option Nat} (h : halfAlone high place x = .ok (.ok s, rest)) :
    high = none ∧ x = .ok (.ok s, rest) := by
  cases high with
  | none => exact ⟨rfl, h⟩
  | some m => exact absurd h spoil_ne_ok

end reading

/-- What may stand for a string where the first half of a pair stands before it, or none. -/
def SpellsBehind (high : Option Nat) (s ts : List Char) : Prop :=
  match high with
  | none => SpellsChars s ts
  | some m => ∃ a b c d n s' ts', codeUnit? a b c d = some n ∧ isLowSurrogate n = true ∧
      SpellsChars s' ts' ∧ s = pairedChar m n :: s' ∧ ts = '\\' :: 'u' :: a :: b :: c :: d :: ts'

/-- A character is put before a string, and what stands for it before its text. -/
theorem SpellsChar.push {c : Char} {t more s rest : List Char} (hc : SpellsChar c t)
    (h : pushChar c (readString none more) = .ok (.ok s, rest))
    (ih : ∀ {s}, readString none more = .ok (.ok s, rest) →
      ∃ ts, SpellsBehind none s ts ∧ more = ts ++ '"' :: rest) :
    ∃ ts, SpellsBehind none s ts ∧ t ++ more = ts ++ '"' :: rest := by
  obtain ⟨s', hs', rfl⟩ := pushChar_eq_ok h
  obtain ⟨ts, hts, rfl⟩ := ih hs'
  exact ⟨t ++ ts, SpellsChars.cons hc hts, (List.append_assoc ..).symm⟩

/-- What is read as a string is one of its texts, and a quote behind it. By induction on the way the
reader goes: a half that stands alone spoils the string for good. -/
theorem spells_of_readString {high : Option Nat} {cs s rest : List Char}
    (h : readString high cs = .ok (.ok s, rest)) :
    ∃ ts, SpellsBehind high s ts ∧ cs = ts ++ '"' :: rest := by
  fun_induction readString high cs generalizing s with
  | case1 | case10 => cases h
  | case2 high rest =>
      obtain ⟨rfl, hend⟩ := halfAlone_eq_ok h
      cases hend
      exact ⟨[], .nil, rfl⟩
  | case3 | case9 => exact absurd h refuseDigits_ne_ok
  | case4 a b c d more n hn m hlow ih =>
      obtain ⟨s', hs', rfl⟩ := pushChar_eq_ok h
      obtain ⟨ts, hts, rfl⟩ := ih hs'
      exact ⟨_, ⟨a, b, c, d, n, s', ts, hn, hlow, hts, rfl, rfl⟩, rfl⟩
  | case5 | case7 => exact absurd h spoil_ne_ok
  | case6 a b c d more m hm hhigh ih =>
      obtain ⟨_, ⟨a', b', c', d', n, s', ts, hn, hlow, hts, rfl, rfl⟩, rfl⟩ := ih h
      exact ⟨_, SpellsChars.cons (.pair hm hn hhigh hlow) hts, rfl⟩
  | case8 a b c d more n hn hhigh hlow ih =>
      rw [Bool.not_eq_true] at hhigh hlow
      exact (SpellsChar.unit hn hhigh hlow).push h ih
  | case11 high e more _ _ ih =>
      obtain ⟨rfl, h⟩ := halfAlone_eq_ok h
      cases he : shortEscape? e with
      | none =>
          rw [he] at h
          cases h
      | some c =>
          rw [he] at h
          exact (SpellsChar.letter he).push h ih
  | case12 high c more hquote _ _ hend hslash ih =>
      obtain ⟨rfl, h⟩ := halfAlone_eq_ok h
      split at h
      · cases h
      · next hcontrol =>
        have hc : c ≠ '\\' := fun hc => by
          cases more with
          | nil => exact hend hc rfl
          | cons d more => exact hslash d more hc rfl
        exact (SpellsChar.plain hquote hc hcontrol).push h ih

/-- **The strings that are read** are those of which a text stands before a quote. -/
theorem readString_iff {cs s rest : List Char} :
    readString none cs = .ok (.ok s, rest) ↔ ∃ ts, SpellsChars s ts ∧ cs = ts ++ '"' :: rest :=
  ⟨spells_of_readString, fun ⟨_, hts, hcs⟩ => hcs ▸ hts.readString_append rest⟩

/-! ## What is written is a text of the string -/

/-- The four digits of a control character's escape give its code. -/
theorem codeUnit?_of_lt {n : Nat} (h : n < 0x20) :
    codeUnit? '0' '0' (hexDigit (n / 16)) (hexDigit (n % 16)) = some n := by
  have hall : ∀ n < 0x20,
      codeUnit? '0' '0' (hexDigit (n / 16)) (hexDigit (n % 16)) = some n := by decide
  exact hall n h

/-- A control character may stand as its code. -/
theorem SpellsChar.control {c : Char} (h : c.toNat < 0x20) : SpellsChar c
    ['\\', 'u', '0', '0', hexDigit (c.toNat / 16), hexDigit (c.toNat % 16)] := by
  have hhigh : isHighSurrogate c.toNat = false := by
    unfold isHighSurrogate
    rw [Bool.and_eq_false_iff, decide_eq_false_iff_not, decide_eq_false_iff_not]
    exact .inl (by omega)
  have hlow : isLowSurrogate c.toNat = false := by
    unfold isLowSurrogate
    rw [Bool.and_eq_false_iff, decide_eq_false_iff_not, decide_eq_false_iff_not]
    exact .inl (by omega)
  have hunit := SpellsChar.unit (codeUnit?_of_lt h) hhigh hlow
  rw [Char.ofNat_toNat] at hunit
  exact hunit

/-- A character is written as one of its texts. -/
theorem spellsChar_written (c : Char) : SpellsChar c (writtenChar c) := by
  rcases writtenChar_cases c with ⟨e, he, hw⟩ | ⟨hc, hw⟩ | ⟨hquote, hslash, hc, hw⟩
  · exact hw ▸ .letter he
  · exact hw ▸ .control hc
  · exact hw ▸ .plain hquote hslash hc

/-- A string is written as one of its texts. -/
theorem spellsChars_written (cs : List Char) : SpellsChars cs (cs.flatMap writtenChar) := by
  induction cs with
  | nil => exact .nil
  | cons c cs ih => exact .cons (spellsChar_written c) ih

/-! ## Line feeds -/

/-- No character is written with a line feed. -/
theorem lineFeed_not_mem_writtenChar (c : Char) : '\n' ∉ writtenChar c := by
  intro h
  rcases writtenChar_cases c with ⟨e, he, hw⟩ | ⟨hc, hw⟩ | ⟨-, -, hc, hw⟩
  · rw [hw, List.mem_cons, List.mem_singleton] at h
    rcases h with h | rfl
    · exact absurd h (by decide)
    · cases he
  · rw [hw] at h
    have hall : ∀ n < 0x20,
        '\n' ∉ ['\\', 'u', '0', '0', hexDigit (n / 16), hexDigit (n % 16)] := by decide
    exact hall c.toNat hc h
  · rw [hw, List.mem_singleton] at h
    exact hc (by rw [← h]; decide)

/-- No string is written with a line feed. -/
theorem lineFeed_not_mem_stringPieces (s : String) : '\n' ∉ charsOf (stringPieces s) := by
  rw [charsOf_stringPieces]
  intro h
  simp only [List.mem_cons, List.mem_append, List.mem_flatMap, List.not_mem_nil, or_false] at h
  rcases h with h | ⟨c, -, h⟩ | h
  · exact absurd h (by decide)
  · exact lineFeed_not_mem_writtenChar c h
  · exact absurd h (by decide)

end SampleData.Json
