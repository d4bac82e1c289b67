import SampleData.Proofs.Numerals
import SampleData.Proofs.TomlStrings
import SampleData.Toml.Document

/-!
# Plain TOML documents read back

A document of headers and of keys with texts or whole numbers is read line by line. A line in front
of others is taken as a whole: what comes of it is a step of the draft, and the rest is the others.

* `IsWritten`: what is written for a value, and read as it up to the end of its line.
* `isWritten_write`, `isWritten_natDigits`: texts and whole numbers.
* `readLines_remark`, `readLines_header`, `readLines_pair`: the lines.
* `Draft.openTable_new`, `Draft.add_new`, `Draft.finish_new`: what becomes of the draft.
-/

namespace SampleData.Toml

open Text

/-! ## Values -/

/-- The characters stand for a value: no blank is before them, and at the end of a line they are
read as the value. -/
structure IsWritten (text : List Char) (v : Toml) : Prop where
  skip : ∀ rest, skipSpace (text ++ rest) = text ++ rest
  read : ∀ rest, readValue maxDepth (text ++ '\n' :: rest) = .ok (v, '\n' :: rest)

/-- A text that does not start with a blank stays as it is. -/
theorem skipSpace_cons {c : Char} (h : isSpace c = false) (cs : List Char) :
    skipSpace (c :: cs) = c :: cs := by
  rw [skipSpace, List.dropWhile_cons, h]
  rfl

/-- What is written for a text starts with a quote. -/
theorem write_eq_cons (cs : List Char) :
    ∃ q more, (q = '"' ∨ q = '\x27') ∧ write cs = q :: more := by
  unfold write
  cases Quoting.of cs with
  | basic => exact ⟨_, _, .inl rfl, rfl⟩
  | literal => exact ⟨_, _, .inr rfl, rfl⟩
  | multiBasic => exact ⟨_, _, .inl rfl, rfl⟩
  | multiLiteral => exact ⟨_, _, .inr rfl, rfl⟩

/-- **A text in quotes** stands for the text. -/
theorem isWritten_write (cs : List Char) : IsWritten (write cs) (.text (String.ofList cs)) := by
  obtain ⟨q, more, hq, hw⟩ := write_eq_cons cs
  constructor
  · intro rest
    rw [hw]
    apply skipSpace_cons
    rcases hq with rfl | rfl <;> rfl
  · intro rest
    have hends : EndsText ('\n' :: rest) := by
      rintro c ⟨⟩
      decide
    have hread := readQuoted_write cs hends
    rw [hw, List.cons_append] at hread ⊢
    rw [readValue, if_pos hq, hread]
    · rfl
    all_goals
      rcases hq with rfl | rfl <;> (intros; contradiction)

/-! ## Whole numbers -/

/-- A digit in base ten. -/
theorem digitIn?_digitChar {d : Nat} (h : d < 10) : digitIn? 10 (digitChar d) = some d := by
  have hall : ∀ d < 10, digitIn? 10 (digitChar d) = some d := by decide
  exact hall d h

/-- All digits up to the end of the line are taken. -/
theorem moreDigits_line {ds : List Nat} (h : ∀ d ∈ ds, d < 10) (rest : List Char) :
    moreDigits 10 (ds.map digitChar ++ '\n' :: rest) = .ok (ds, '\n' :: rest) := by
  induction ds with
  | nil => rfl
  | cons d ds ih =>
      obtain ⟨hd, hds⟩ := List.forall_mem_cons.mp h
      have hmark : ∀ d < 10, digitChar d ≠ '_' := by decide
      rw [List.map_cons, List.cons_append, moreDigits, digitIn?_digitChar hd, ih hds]
      · rfl
      all_goals
        intros
        exact hmark d hd ‹_›

/-- The digits of a number up to the end of the line. -/
theorem wholeDigits_line (n : Nat) (rest : List Char) :
    wholeDigits (natDigits n ++ '\n' :: rest) = .ok (digitList n, '\n' :: rest) := by
  have hall : ∀ d ∈ digitList n, d < 10 := fun d hd => lt_of_mem_digitList hd
  rw [natDigits_eq_map]
  rcases Nat.eq_zero_or_pos n with rfl | hn
  · have hzero : digitList 0 = [0] := by rw [digitList]; rfl
    rw [hzero]
    rfl
  · obtain ⟨d, ds, hcons, hd⟩ := head_digitList_pos hn
    rw [hcons] at hall ⊢
    obtain ⟨hten, hds⟩ := List.forall_mem_cons.mp hall
    have hnonzero : ∀ d < 10, 0 < d → digitChar d ≠ '0' := by decide
    rw [List.map_cons, List.cons_append, wholeDigits, someDigits, digitIn?_digitChar hten,
      moreDigits_line hds]
    · rfl
    · intro cs heq
      exact hnonzero d hten hd (List.cons.inj heq).1

/-- What a number of a fixed width leaves of digits at the end of a line are digits. -/
theorem fixedDigits_line {k acc n : Nat} {ds : List Nat} {rest left : List Char}
    (h : fixedDigits k acc (ds.map digitChar ++ '\n' :: rest) = some (n, left)) :
    ∃ ds' : List Nat, (∀ d ∈ ds', d ∈ ds) ∧ left = ds'.map digitChar ++ '\n' :: rest := by
  induction k generalizing acc ds with
  | zero => exact ⟨ds, fun _ h => h, (congrArg Prod.snd (Option.some.inj h)).symm⟩
  | succ k ih =>
      cases ds with
      | nil => cases h
      | cons d ds =>
          rw [List.map_cons, List.cons_append, fixedDigits, Option.bind_eq_some_iff] at h
          obtain ⟨x, -, hx⟩ := h
          obtain ⟨ds', hds', hleft⟩ := ih hx
          exact ⟨ds', fun d hd => List.mem_cons_of_mem _ (hds' d hd), hleft⟩

/-- No mark of a date or a time stands between digits or at the end of a line. -/
theorem readMark_line {ds : List Nat} (h : ∀ d ∈ ds, d < 10) {mark : Char}
    (hmark : mark = '-' ∨ mark = ':') (rest : List Char) :
    ∃ place, readMark mark (ds.map digitChar ++ '\n' :: rest) = .error (.absent place) := by
  have hdigit : ∀ d < 10, digitChar d ≠ '-' ∧ digitChar d ≠ ':' := by decide
  cases ds with
  | nil => exact ⟨_, by rcases hmark with rfl | rfl <;> rfl⟩
  | cons d ds =>
      have hd := hdigit d (h d List.mem_cons_self)
      refine ⟨digitChar d :: (ds.map digitChar ++ '\n' :: rest), ?_⟩
      rw [List.map_cons, List.cons_append, readMark, if_neg]
      rcases hmark with rfl | rfl
      · exact hd.1
      · exact hd.2

/-- Digits at the end of a line are no moment. -/
theorem readMoment_line {ds : List Nat} (h : ∀ d ∈ ds, d < 10) (rest : List Char) :
    ∃ place, readMoment (ds.map digitChar ++ '\n' :: rest) = .error (.absent place) := by
  have hdate : ∃ place, readDate (ds.map digitChar ++ '\n' :: rest) = .error (.absent place) := by
    unfold readDate
    split
    · exact ⟨_, rfl⟩
    · next year left hfixed =>
      obtain ⟨ds', hds', rfl⟩ := fixedDigits_line hfixed
      obtain ⟨place, hplace⟩ := readMark_line (fun d hd => h d (hds' d hd)) (.inl rfl) rest
      rw [hplace]
      exact ⟨place, rfl⟩
  have htime : ∃ place, readTime (ds.map digitChar ++ '\n' :: rest) = .error (.absent place) := by
    unfold readTime readPart
    split
    · next hour left hfixed =>
      split
      · obtain ⟨ds', hds', rfl⟩ := fixedDigits_line hfixed
        obtain ⟨place, hplace⟩ := readMark_line (fun d hd => h d (hds' d hd)) (.inr rfl) rest
        simp only [bind, Except.bind, hplace]
        exact ⟨place, rfl⟩
      · exact ⟨_, rfl⟩
    · exact ⟨_, rfl⟩
  obtain ⟨place, hplace⟩ := hdate
  rw [readMoment, hplace]
  exact htime

/-- Digits that could be a numeral are no number in another base, and no sign or word is before
them. -/
theorem readNumber_digits {d : Nat} (hd : d < 10) (cs : List Char)
    (hzero : d = 0 → ∀ c ∈ cs.head?, c ≠ 'x' ∧ c ≠ 'o' ∧ c ≠ 'b') :
    readNumber (digitChar d :: cs) = readDecimal (digitChar d :: cs) false (digitChar d :: cs) := by
  have hdigit : ∀ d < 10, digitChar d ≠ '+' ∧ digitChar d ≠ '-' ∧ digitChar d ≠ 'i' ∧
      digitChar d ≠ 'n' ∧ (digitChar d = '0' → d = 0) := by decide
  obtain ⟨hplus, hminus, hi, hn, hnull⟩ := hdigit d hd
  have hsign : readSign (digitChar d :: cs) = (none, digitChar d :: cs) := by
    unfold readSign
    split
    · next heq => exact absurd (List.cons.inj heq).1 hminus
    · next heq => exact absurd (List.cons.inj heq).1 hplus
    · rfl
  unfold readNumber
  split
  · next heq =>
    obtain ⟨hd, rfl⟩ := List.cons.inj heq
    exact absurd rfl (hzero (hnull hd) _ rfl).1
  · next heq =>
    obtain ⟨hd, rfl⟩ := List.cons.inj heq
    exact absurd rfl (hzero (hnull hd) _ rfl).2.1
  · next heq =>
    obtain ⟨hd, rfl⟩ := List.cons.inj heq
    exact absurd rfl (hzero (hnull hd) _ rfl).2.2
  · rw [hsign]
    split
    · next heq => exact absurd (List.cons.inj (Prod.mk.inj heq).2).1 hi
    · next heq => exact absurd (List.cons.inj (Prod.mk.inj heq).2).1 hn
    · next heq =>
      obtain ⟨rfl, rfl⟩ := Prod.mk.inj heq
      rfl

/-- A numeral at the end of a line is read as its number. -/
theorem readNumber_line {n : Nat} (h : n ≤ greatestInt64) (rest : List Char) :
    readNumber (natDigits n ++ '\n' :: rest) = .ok (.integer n, '\n' :: rest) := by
  have hdecimal : readDecimal (natDigits n ++ '\n' :: rest) false (natDigits n ++ '\n' :: rest) =
      .ok (.integer n, '\n' :: rest) := by
    have hlow : leastInt64 ≤ (n : Int) := by
      unfold leastInt64
      omega
    have hvalue : decimal? false (digitList n) none none = some (.integer n) := by
      show integer? ((ofDigits 10 (digitList n) : Nat) : Int) = _
      rw [ofDigits, foldl_digitList, integer?, if_pos ⟨hlow, h⟩]
    have hfraction : readFraction ('\n' :: rest) = .ok (none, '\n' :: rest) := rfl
    have hexponent : readExponent ('\n' :: rest) = .ok (none, '\n' :: rest) := by
      rw [readExponent, if_neg (by decide)]
    simp only [readDecimal, wholeDigits_line, hfraction, hexponent, bind, Except.bind, hvalue]
    rfl
  obtain ⟨d, ds, hcons⟩ := List.exists_cons_of_ne_nil (digitList_ne_nil n)
  have hten : d < 10 := lt_of_mem_digitList (n := n) (by rw [hcons]; exact List.mem_cons_self)
  have htext : natDigits n ++ '\n' :: rest =
      digitChar d :: (ds.map digitChar ++ '\n' :: rest) := by
    rw [natDigits_eq_map, hcons]
    rfl
  rw [htext] at hdecimal ⊢
  rw [readNumber_digits hten, hdecimal]
  rintro rfl c hc
  -- only zero itself starts with a zero
  have hnil : ds = [] := by
    rcases Nat.eq_zero_or_pos n with rfl | hn
    · rw [digitList] at hcons
      exact (List.cons.inj hcons).2.symm
    · obtain ⟨d, ds', hpos, hd⟩ := head_digitList_pos hn
      rw [hcons] at hpos
      exact absurd (List.cons.inj hpos).1 (Nat.ne_of_lt hd)
  rw [hnil] at hc
  cases hc
  decide

/-- **The numeral of a number** that fits stands for the number. -/
theorem isWritten_natDigits {n : Nat} (h : n ≤ greatestInt64) :
    IsWritten (natDigits n) (.integer n) := by
  obtain ⟨d, ds, hcons⟩ := List.exists_cons_of_ne_nil (digitList_ne_nil n)
  have hall : ∀ d ∈ digitList n, d < 10 := fun d hd => lt_of_mem_digitList hd
  have hten : d < 10 := hall d (by rw [hcons]; exact List.mem_cons_self)
  have htext : natDigits n = digitChar d :: ds.map digitChar := by
    rw [natDigits_eq_map, hcons]
    rfl
  have hdigit : ∀ d < 10, isSpace (digitChar d) = false ∧ digitChar d ≠ '"' ∧
      digitChar d ≠ '\x27' ∧ digitChar d ≠ 't' ∧ digitChar d ≠ 'f' ∧ digitChar d ≠ '[' ∧
      digitChar d ≠ '\x7b' := by decide
  obtain ⟨hspace, hdouble, hsingle, ht, hf, hbracket, hbrace⟩ := hdigit d hten
  constructor
  · intro rest
    rw [htext]
    exact skipSpace_cons hspace _
  · intro rest
    obtain ⟨place, hmoment⟩ := readMoment_line hall rest
    have hscalar : readScalar (natDigits n ++ '\n' :: rest) = .ok (.integer n, '\n' :: rest) := by
      rw [readScalar, natDigits_eq_map, hmoment, ← natDigits_eq_map, readNumber_line h]
      rfl
    rw [htext, List.cons_append] at hscalar ⊢
    rw [readValue, if_neg (by simp [hdouble, hsingle]), if_neg (by simp [ht, hf]), hscalar]
    all_goals
      intros
      contradiction

/-! ## Keys -/

/-- The characters can stand for a key without quotes. -/
def IsWord (cs : List Char) : Prop := cs ≠ [] ∧ ∀ c ∈ cs, isKeyChar c

instance (cs : List Char) : Decidable (IsWord cs) :=
  decidable_of_iff (cs ≠ [] ∧ cs.all isKeyChar) (and_congr_right' List.all_eq_true)

/-- A character of a word is no blank, opens no quotes or brackets, and starts no line that says
nothing. -/
theorem ne_of_isKeyChar {c : Char} (h : isKeyChar c) :
    isSpace c = false ∧ c ≠ '"' ∧ c ≠ '\x27' ∧ c ≠ '[' ∧ isIdle c = false := by
  have hne : ∀ x, isKeyChar x = false → c ≠ x := by
    rintro x hx rfl
    rw [hx] at h
    exact absurd h Bool.false_ne_true
  refine ⟨?_, hne _ (by decide), hne _ (by decide), hne _ (by decide), ?_⟩
  · simp only [isSpace, hne ' ' (by decide), hne '\t' (by decide), decide_false, Bool.or_false]
  · simp only [isIdle, hne '#' (by decide), hne '\n' (by decide), hne '\r' (by decide),
      decide_false, Bool.or_false]

/-- The part of a key that stands as a word. -/
def wordPart (word rest : List Char) : KeyPart :=
  { name := String.ofList word, place := word ++ rest }

/-- A word is taken up to the first character that cannot stand in it. -/
theorem readPartOfKey_word {word rest : List Char} (h : IsWord word)
    (hend : ∀ c ∈ rest.head?, isKeyChar c = false) :
    readPartOfKey (word ++ rest) = .ok (wordPart word rest, rest) := by
  obtain ⟨hne, hall⟩ := h
  obtain ⟨c, cs, rfl⟩ := List.exists_cons_of_ne_nil hne
  obtain ⟨-, hdouble, hsingle, -, -⟩ := ne_of_isKeyChar (hall c List.mem_cons_self)
  have htake : ((c :: cs) ++ rest).takeWhile isKeyChar = c :: cs := by
    rw [List.takeWhile_append_of_pos hall]
    cases rest with
    | nil => rw [List.takeWhile_nil, List.append_nil]
    | cons x xs => rw [List.takeWhile_cons, hend x rfl, if_neg Bool.false_ne_true, List.append_nil]
  have hdrop : ((c :: cs) ++ rest).dropWhile isKeyChar = rest := by
    rw [List.dropWhile_append_of_pos hall]
    cases rest with
    | nil => rfl
    | cons x xs => rw [List.dropWhile_cons, hend x rfl, if_neg Bool.false_ne_true]
  have hname : readName ((c :: cs) ++ rest) = .ok (String.ofList (c :: cs), rest) := by
    rw [readName, htake, hdrop]
    all_goals
      intro more heq
      first
      | exact hdouble (List.cons.inj heq).1
      | exact hsingle (List.cons.inj heq).1
  rw [readPartOfKey, hname]
  rfl

/-- A word is read as a key of one part, together with the blanks behind it. -/
theorem readKey_word {word : List Char} (h : IsWord word) {rest : List Char}
    (hend : ∀ c ∈ rest.head?, isKeyChar c = false)
    (hpoint : ∀ c ∈ (skipSpace rest).head?, c ≠ '.') :
    readKey (word ++ rest) = .ok (([], wordPart word rest), skipSpace rest) := by
  have hskip : skipSpace (word ++ rest) = word ++ rest := by
    obtain ⟨c, cs, rfl⟩ := List.exists_cons_of_ne_nil h.1
    exact skipSpace_cons (ne_of_isKeyChar (h.2 c List.mem_cons_self)).1 _
  have hparts : ∀ n, readParts (n + 1) (word ++ rest) =
      .ok (([], wordPart word rest), skipSpace rest) := by
    intro n
    simp only [readParts, hskip, readPartOfKey_word h hend, bind, Except.bind]
    split
    · next heq => exact absurd rfl (hpoint '.' (by rw [heq]; rfl))
    · rfl
  obtain ⟨k, hk⟩ : ∃ k, (word ++ rest).length = k + 1 :=
    Nat.exists_eq_succ_of_ne_zero (by simp [h.1])
  rw [readKey, hk, hparts]
  rfl

/-! ## Lines -/

/-- What stands behind the key on a line with a value. -/
def assigned (text : List Char) : List Char := ' ' :: '=' :: ' ' :: text

/-- A key with its value up to the end of the line. -/
theorem readPair_word {word text : List Char} {v : Toml} (hword : IsWord word)
    (htext : IsWritten text v) (rest : List Char) :
    readPair (readValue maxDepth) (word ++ assigned (text ++ '\n' :: rest)) =
      .ok ({ key := ([], wordPart word (assigned (text ++ '\n' :: rest))), value := v,
             place := text ++ '\n' :: rest }, '\n' :: rest) := by
  have hkey : readKey (word ++ assigned (text ++ '\n' :: rest)) =
      .ok (([], wordPart word _), skipSpace _) :=
    readKey_word hword (by rintro c ⟨⟩; decide) (by rintro c ⟨⟩; decide)
  have hskip : skipSpace (assigned (text ++ '\n' :: rest)) = '=' :: ' ' :: (text ++ '\n' :: rest) :=
    rfl
  have hstart : skipSpace (' ' :: (text ++ '\n' :: rest)) = text ++ '\n' :: rest :=
    htext.skip ('\n' :: rest)
  simp only [readPair, hkey, hskip, hstart, htext.read, bind, Except.bind]
  rfl

/-- The end of a line. -/
@[simp] theorem readLineEnd_break (rest : List Char) : readLineEnd ('\n' :: rest) = .ok rest := rfl

variable {n : Nat} {d d' : Draft}

/-- A line without anything on it is passed over. -/
@[simp] theorem readLines_break (rest : List Char) :
    readLines (n + 1) d ('\n' :: rest) = readLines n d rest := rfl

/-- A comment is passed over. -/
theorem readLines_remark {cs : List Char} (h : cs.all isPlain) (rest : List Char) :
    readLines (n + 1) d ('#' :: (cs ++ '\n' :: rest)) = readLines n d rest := by
  have hend : readLineEnd ('#' :: (cs ++ '\n' :: rest)) = .ok rest := by
    show readBreakOrEnd ((cs ++ '\n' :: rest).dropWhile isPlain) = _
    rw [List.dropWhile_append_of_pos (List.all_eq_true.mp h)]
    rfl
  show (if isIdle '#' then readLineEnd ('#' :: (cs ++ '\n' :: rest)) >>= readLines n d else _) = _
  rw [if_pos (by decide), hend]
  rfl

/-- A line that says something is taken as it is read. -/
theorem readLines_line {c : Char} {cs rest : List Char} (hspace : isSpace c = false)
    (hidle : isIdle c = false) (h : readLine d (c :: cs) = .ok (d', rest)) :
    readLines (n + 1) d (c :: cs) = readLines n d' rest := by
  conv => lhs; unfold readLines
  rw [skipSpace_cons hspace cs]
  simp only [hidle, Bool.false_eq_true, if_false, h, bind, Except.bind]

/-- The header that stands as a word in single brackets. -/
def wordHeader (word rest : List Char) : Header :=
  { key := ([], wordPart word (']' :: rest)), place := '[' :: (word ++ ']' :: rest)
    repeated := false }

/-- A line with a header opens its table. -/
theorem readLines_header {word rest : List Char} (h : IsWord word)
    (hopen : d.openTable (wordHeader word ('\n' :: rest)) = some d') :
    readLines (n + 1) d ('[' :: (word ++ ']' :: '\n' :: rest)) = readLines n d' rest := by
  have hkey : readKey (word ++ ']' :: '\n' :: rest) = .ok (([], wordPart word _), skipSpace _) :=
    readKey_word h (by rintro c ⟨⟩; decide) (by rintro c ⟨⟩; decide)
  have hskip : skipSpace (']' :: '\n' :: rest) = ']' :: '\n' :: rest := rfl
  have hheader : readHeader ('[' :: (word ++ ']' :: '\n' :: rest)) false
      (word ++ ']' :: '\n' :: rest) = .ok (wordHeader word ('\n' :: rest), rest) := by
    simp only [readHeader, hkey, hskip, readLineEnd_break, bind, Except.bind]
    rfl
  apply readLines_line (by decide) (by decide)
  obtain ⟨c, cs, rfl⟩ := List.exists_cons_of_ne_nil h.1
  obtain ⟨-, -, -, hbracket, -⟩ := ne_of_isKeyChar (h.2 c List.mem_cons_self)
  unfold readLine
  split
  · next heq => cases heq
  · next heq => exact absurd (List.cons.inj (List.cons.inj heq).2).1 hbracket
  · next heq =>
    obtain ⟨-, rfl⟩ := List.cons.inj heq
    simp only [hheader, hopen, fitting, bind, Except.bind]
    rfl
  · next heq => exact absurd rfl (heq _)

/-- A line with a key and a value puts it into the current table. -/
theorem readLines_pair {word text rest : List Char} {v : Toml} (hword : IsWord word)
    (htext : IsWritten text v)
    (hadd : d.add { key := ([], wordPart word (assigned (text ++ '\n' :: rest))), value := v,
                    place := text ++ '\n' :: rest } = some d') :
    readLines (n + 1) d (word ++ assigned (text ++ '\n' :: rest)) = readLines n d' rest := by
  have hpair := readPair_word hword htext rest
  obtain ⟨c, cs, rfl⟩ := List.exists_cons_of_ne_nil hword.1
  obtain ⟨hspace, -, -, hbracket, hidle⟩ := ne_of_isKeyChar (hword.2 c List.mem_cons_self)
  rw [List.cons_append] at hpair ⊢
  apply readLines_line hspace hidle
  rw [readLine]
  · rw [hpair]
    simp only [readLineEnd_break, hadd, fitting, bind, Except.bind]
    rfl
  all_goals
    intros
    exact hbracket (List.cons.inj ‹_›).1

/-! ## What becomes of the draft -/

/-- A value under a new key stands behind all others. -/
theorem Draft.add_new {p : Pair} (hpath : p.key.1 = [])
    (hnew : get? p.key.2.name d.current = none) :
    d.add p = some { d with current := append p.key.2 p.value p.place d.current } := by
  simp only [Draft.add, insert, hpath, descend, hnew]
  rfl

/-- The table of a new header becomes complete behind all others. -/
theorem Draft.finish_new {h : Header} (hheader : d.header = some h) (hpath : h.key.1 = [])
    (hsingle : h.repeated = false) (hnew : get? h.key.2.name d.root = none) :
    d.finish = some (append h.key.2 (.table .header d.current) h.place d.root) := by
  simp only [Draft.finish, hheader, hpath, descend, hnew, hsingle]

/-- A new header opens a table of its own. -/
theorem Draft.openTable_new {h : Header} {ms : Members} (hfinish : d.finish = some ms)
    (hpath : h.key.1 = []) (hsingle : h.repeated = false) (hnew : get? h.key.2.name ms = none) :
    d.openTable h = some { root := ms, current := [], header := h } := by
  have hall : ∀ e ∈ ms, decide (e.key ≠ h.key.2.name) = true := by
    intro e he
    have hnone := List.find?_eq_none.mp (Option.map_eq_none_iff.mp hnew) e he
    simpa using hnone
  have hfilter : (ms.filter fun e => e.key ≠ h.key.2.name) = ms := List.filter_eq_self.mpr hall
  simp only [Draft.openTable, hfinish, hsingle, Option.bind_some, Bool.false_eq_true, if_false,
    Draft.openSingle, hpath, Draft.begun, Draft.waiting, hnew, descend, hfilter]
  rfl

/-! ## Sections -/

/-- Keys and values, wherever they stand. -/
def contents (ms : Members) : List (String × Toml) := ms.map fun e => (e.key, e.value)

/-- A line of a section: a key, a value, and what is written for the value. -/
structure KeyLine where
  key : List Char
  text : List Char
  value : Toml

/-- The key can be read as a word, and the text as the value. -/
structure KeyLine.IsReadable (l : KeyLine) : Prop where
  word : IsWord l.key
  text : IsWritten l.text l.value

/-- What a line says. -/
def KeyLine.content (l : KeyLine) : String × Toml := (String.ofList l.key, l.value)

/-- The lines of a section before what follows it. -/
def writeLines (ls : List KeyLine) (rest : List Char) : List Char :=
  ls.foldr (fun l rest => l.key ++ assigned (l.text ++ '\n' :: rest)) rest

/-- A key that stands nowhere has no value. -/
theorem get?_eq_none {key : String} {ms : Members} (h : ∀ e ∈ ms, e.key ≠ key) :
    get? key ms = none :=
  Option.map_eq_none_iff.mpr (List.find?_eq_none.mpr fun e he => by simpa using h e he)

/-- Lines with new keys put their values into the current table, one behind the other. -/
theorem readLines_lines {ls : List KeyLine} (h : ∀ l ∈ ls, l.IsReadable)
    (hdistinct : (ls.map (·.key)).Nodup)
    (hnew : ∀ l ∈ ls, ∀ e ∈ d.current, e.key ≠ String.ofList l.key) (rest : List Char) :
    ∃ ms, contents ms = ls.map (·.content) ∧ ∀ n,
      readLines (n + ls.length) d (writeLines ls rest) =
        readLines n { d with current := d.current ++ ms } rest := by
  induction ls generalizing d with
  | nil => exact ⟨[], rfl, fun n => by rw [List.append_nil]; rfl⟩
  | cons l ls ih =>
      obtain ⟨hl, hls⟩ := List.forall_mem_cons.mp h
      obtain ⟨hnotin, hrest⟩ := List.nodup_cons.mp hdistinct
      obtain ⟨hnewl, hnewls⟩ := List.forall_mem_cons.mp hnew
      let more := assigned (l.text ++ '\n' :: writeLines ls rest)
      let e : Entry Toml :=
        { key := String.ofList l.key, keyPlace := l.key ++ more, value := l.value
          valuePlace := some (l.text ++ '\n' :: writeLines ls rest) }
      have hadd : d.add { key := ([], wordPart l.key more), value := l.value
                          place := l.text ++ '\n' :: writeLines ls rest } =
          some { d with current := d.current ++ [e] } :=
        Draft.add_new rfl (get?_eq_none hnewl)
      have hnews : ∀ l' ∈ ls, ∀ e' ∈ d.current ++ [e], e'.key ≠ String.ofList l'.key := by
        intro l' hl' e' he'
        rcases List.mem_append.mp he' with he' | he'
        · exact hnewls l' hl' e' he'
        · rw [List.mem_singleton.mp he']
          intro heq
          exact hnotin (List.mem_map.mpr ⟨l', hl', (String.ofList_injective heq).symm⟩)
      obtain ⟨ms, hcontents, hread⟩ :=
        ih (d := { d with current := d.current ++ [e] }) hls hrest hnews
      refine ⟨e :: ms, congrArg (l.content :: ·) hcontents, fun n => ?_⟩
      rw [List.length_cons, ← Nat.add_assoc]
      calc readLines (n + ls.length + 1) d (writeLines (l :: ls) rest)
          = readLines (n + ls.length) { d with current := d.current ++ [e] } (writeLines ls rest) :=
            readLines_pair hl.word hl.text hadd
        _ = readLines n { d with current := d.current ++ [e] ++ ms } rest := hread n
        _ = readLines n { d with current := d.current ++ e :: ms } rest := by
            rw [List.append_assoc, List.singleton_append]

/-- **A section** with a new name: its keys and values become the last table of the document. -/
theorem readLines_section {word : List Char} {ls : List KeyLine} {ms₀ : Members}
    (hword : IsWord word) (h : ∀ l ∈ ls, l.IsReadable) (hdistinct : (ls.map (·.key)).Nodup)
    (hfinish : d.finish = some ms₀) (hnew : ∀ e ∈ ms₀, e.key ≠ String.ofList word)
    (rest : List Char) :
    ∃ (d' : Draft) (e : Entry Toml) (ms : Members), d'.finish = some (ms₀ ++ [e]) ∧
      e.key = String.ofList word ∧ e.value = .table .header ms ∧
      contents ms = ls.map (·.content) ∧ ∀ n,
        readLines (n + ls.length + 1) d ('[' :: (word ++ ']' :: '\n' :: writeLines ls rest)) =
          readLines n d' rest := by
  let header := wordHeader word ('\n' :: writeLines ls rest)
  have hnone : get? (String.ofList word) ms₀ = none := get?_eq_none hnew
  obtain ⟨ms, hcontents, hread⟩ :=
    readLines_lines (d := { root := ms₀, current := [], header := header }) h hdistinct
      (fun _ _ _ => nofun) rest
  refine ⟨{ root := ms₀, current := ms, header := header }, _, ms,
    Draft.finish_new rfl rfl rfl hnone, rfl, rfl, hcontents, fun n => ?_⟩
  rw [readLines_header hword (Draft.openTable_new hfinish rfl rfl hnone)]
  exact hread n

end SampleData.Toml
