import SampleData.Instruction.ListLiteral
import SampleData.Proofs.Trimming

/-!
# Elements of lists

Between the brackets of a list stand elements with commas between them. What an element may look
like is said by a grammar, and so is what is wrong with a text that starts with none: a quote that
is not closed, or text behind one that is. The scan takes exactly the texts of the grammar, with the
items that the grammar gives them; of every other text it reports the leftmost element that offends.

* `Element`, `Elements`: the grammar.
* `Offence`, `FirstOffence`: what is wrong with the other texts.
* `scanElements_of_quote`, `scanElements_of_bare`: the scan, one element at a time.
* `Elements.scanElements_eq`, `FirstOffence.scanElements_eq`: what the scan comes to.
* `elements_or_firstOffence`: there are no further texts.
* `readList_eq_ok_iff`: a list with its brackets.
* `readList_answers`: every text, the fault of those that are no lists included.
-/

namespace SampleData.Instruction

open Text

/-- A text between commas, and the items it stands for: one in quotes, with blanks around them at
most, or one without quotes, which does not count if nothing is left of it. -/
inductive Element : List Char → List String → Prop
  | quoted {before body after : List Char} {q : Char} (hq : isQuote q = true)
      (hbefore : ∀ c ∈ before, isBlank c = true) (hbody : q ∉ body)
      (hafter : ∀ c ∈ after, isBlank c = true) :
      Element (before ++ q :: (body ++ q :: after)) [String.ofList body]
  | bare {cs : List Char} (hcomma : ',' ∉ cs)
      (hfirst : ∀ c ∈ (dropBlanks cs).head?, isQuote c = false) : Element cs (bareElement cs)

/-- Elements with commas between them, and their items. -/
inductive Elements : List Char → List String → Prop
  | last {cs : List Char} {xs : List String} (h : Element cs xs) : Elements cs xs
  | next {cs rest : List Char} {xs ys : List String} (h : Element cs xs)
      (hrest : Elements rest ys) : Elements (cs ++ ',' :: rest) (xs ++ ys)

/-- A text in quotes that goes wrong, and how: the quote is not closed, or text that is neither
blank nor a comma comes behind the blanks after it. -/
inductive Offence : List Char → ListFault → Prop
  | unterminated {before rest : List Char} {q : Char} (hq : isQuote q = true)
      (hbefore : ∀ c ∈ before, isBlank c = true) (hrest : q ∉ rest) :
      Offence (before ++ q :: rest) (.unterminatedQuote q)
  | stray {before body after more : List Char} {q d : Char} (hq : isQuote q = true)
      (hbefore : ∀ c ∈ before, isBlank c = true) (hbody : q ∉ body)
      (hafter : ∀ c ∈ after, isBlank c = true) (hblank : isBlank d = false) (hcomma : d ≠ ',') :
      Offence (before ++ q :: (body ++ q :: (after ++ d :: more)))
        (.strayText (String.ofList (d :: more)))

/-- Elements, each with a comma behind it, and then the first that offends. -/
inductive FirstOffence : List Char → ListFault → Prop
  | here {cs : List Char} {e : ListFault} (h : Offence cs e) : FirstOffence cs e
  | later {cs rest : List Char} {xs : List String} {e : ListFault} (h : Element cs xs)
      (hrest : FirstOffence rest e) : FirstOffence (cs ++ ',' :: rest) e

/-! ## One element at a time -/

/-- Blanks have no elements. -/
theorem scanElements_of_blank {cs : List Char} (h : dropBlanks cs = []) :
    scanElements cs = .ok [] := by
  rw [scanElements]
  split
  · rfl
  · next heq =>
    rw [h] at heq
    cases heq

/-- A quote that is closed: what stands behind it decides. -/
theorem scanElements_of_quote {cs rest body after : List Char} {q : Char} (hq : isQuote q = true)
    (h : dropBlanks cs = q :: rest) (hcut : cutAtFirst q rest = some (body, after)) :
    scanElements cs = match dropBlanks after with
      | [] => .ok [String.ofList body]
      | d :: more =>
        if d = ',' then (scanElements more).map (String.ofList body :: ·)
        else .error (.strayText (String.ofList (d :: more))) := by
  rw [scanElements]
  split
  · next heq =>
    rw [h] at heq
    cases heq
  · next c rest' heq =>
    rw [h] at heq
    obtain ⟨rfl, rfl⟩ := List.cons.inj heq
    rw [if_pos hq]
    split
    · next hnone =>
      rw [hcut] at hnone
      cases hnone
    · next hsome =>
      rw [hcut] at hsome
      obtain ⟨rfl, rfl⟩ := Prod.mk.inj (Option.some.inj hsome)
      split <;> simp_all

/-- A quote that is not closed. -/
theorem scanElements_of_open {cs rest : List Char} {q : Char} (hq : isQuote q = true)
    (h : dropBlanks cs = q :: rest) (hcut : cutAtFirst q rest = none) :
    scanElements cs = .error (.unterminatedQuote q) := by
  rw [scanElements]
  split
  · next heq =>
    rw [h] at heq
    cases heq
  · next c rest' heq =>
    rw [h] at heq
    obtain ⟨rfl, rfl⟩ := List.cons.inj heq
    rw [if_pos hq]
    split
    · rfl
    · next hsome =>
      rw [hcut] at hsome
      cases hsome

/-- An element without quotes goes up to the next comma. -/
theorem scanElements_of_bare {cs rest : List Char} {c : Char} (hc : isQuote c = false)
    (h : dropBlanks cs = c :: rest) :
    scanElements cs = match cutAtFirst ',' (c :: rest) with
      | none => .ok (bareElement (c :: rest))
      | some (body, more) => (scanElements more).map (bareElement body ++ ·) := by
  rw [scanElements]
  split
  · next heq =>
    rw [h] at heq
    cases heq
  · next c' rest' heq =>
    rw [h] at heq
    obtain ⟨rfl, rfl⟩ := List.cons.inj heq
    rw [if_neg (by rw [hc]; exact Bool.false_ne_true)]
    split <;> simp_all

/-! ## The scan takes what the grammar gives -/

/-- Blanks in front of an element without quotes do not matter. -/
theorem bareElement_append_left {l : List Char} (hl : ∀ c ∈ l, isBlank c = true) (cs : List Char) :
    bareElement (l ++ cs) = bareElement cs := by
  have htrim : trimChars (l ++ cs) = trimChars cs := by
    rw [trimChars, dropBlanks_append_left hl, trimChars]
  rw [bareElement, htrim, bareElement]

/-- A quote is no blank. -/
theorem isBlank_of_isQuote {q : Char} (h : isQuote q = true) : isBlank q = false := by
  rw [isQuote, Bool.or_eq_true, decide_eq_true_eq, decide_eq_true_eq] at h
  rcases h with rfl | rfl <;> decide

/-- An element in quotes, wherever its text goes on. -/
theorem dropBlanks_quoted {before : List Char} {q : Char} (hq : isQuote q = true)
    (hbefore : ∀ c ∈ before, isBlank c = true) (rest : List Char) :
    dropBlanks (before ++ q :: rest) = q :: rest := by
  rw [dropBlanks_append_cons (isBlank_of_isQuote hq), dropBlanks_eq_nil_iff.mpr hbefore,
    List.nil_append]

/-- An element at the end. -/
theorem Element.scan_last {cs : List Char} {xs : List String} (h : Element cs xs) :
    scanElements cs = .ok xs := by
  cases h with
  | @quoted before body after q hq hbefore hbody hafter =>
      rw [scanElements_of_quote hq (dropBlanks_quoted hq hbefore _) (cutAtFirst_append hbody),
        dropBlanks_eq_nil_iff.mpr hafter]
  | bare hcomma hfirst =>
      obtain ⟨l, hl, hcs⟩ := exists_dropBlanks cs
      rcases hd : dropBlanks cs with _ | ⟨c, rest⟩
      · rw [scanElements_of_blank hd, bareElement, trimChars_eq_nil_iff.mpr hd]
        rfl
      · rw [hd] at hcs hfirst
        have hnone : cutAtFirst ',' (c :: rest) = none := by
          rw [cutAtFirst_eq_none_iff]
          exact fun hmem => hcomma (hcs ▸ List.mem_append_right l hmem)
        rw [scanElements_of_bare (hfirst c rfl) hd, hnone, hcs, bareElement_append_left hl]

/-- An element with a comma behind it. -/
theorem Element.scan_next {cs : List Char} {xs : List String} (h : Element cs xs)
    (rest : List Char) : scanElements (cs ++ ',' :: rest) = (scanElements rest).map (xs ++ ·) := by
  cases h with
  | @quoted before body after q hq hbefore hbody hafter =>
      have hchars : before ++ q :: (body ++ q :: after) ++ ',' :: rest =
          before ++ q :: (body ++ q :: (after ++ ',' :: rest)) := by simp
      have hcomma : dropBlanks (after ++ ',' :: rest) = ',' :: rest := by
        rw [dropBlanks_append_cons (by decide), dropBlanks_eq_nil_iff.mpr hafter, List.nil_append]
      rw [hchars, scanElements_of_quote hq (dropBlanks_quoted hq hbefore _)
        (cutAtFirst_append hbody), hcomma]
      simp only [if_true, List.singleton_append]
  | bare hcomma hfirst =>
      obtain ⟨l, hl, hcs⟩ := exists_dropBlanks cs
      have hfree : ',' ∉ dropBlanks cs := fun hmem => hcomma (hcs ▸ List.mem_append_right l hmem)
      have hfront : dropBlanks (cs ++ ',' :: rest) = dropBlanks cs ++ ',' :: rest :=
        dropBlanks_append_cons (by decide) cs rest
      have hitems : bareElement cs = bareElement (dropBlanks cs) :=
        (congrArg bareElement hcs).trans (bareElement_append_left hl _)
      rw [hitems]
      rcases hd : dropBlanks cs with _ | ⟨c, more⟩
      · rw [hd, List.nil_append] at hfront
        have hcut : cutAtFirst ',' (',' :: rest) = some ([], rest) :=
          cutAtFirst_append (a := []) nofun
        rw [scanElements_of_bare (by decide) hfront, hcut]
      · rw [hd] at hfirst hfree hfront
        have hcut : cutAtFirst ',' (c :: (more ++ ',' :: rest)) = some (c :: more, rest) :=
          cutAtFirst_append hfree
        rw [List.cons_append] at hfront
        rw [scanElements_of_bare (hfirst c rfl) hfront, hcut]

/-- **The scan takes every text of the grammar**, with its items. -/
theorem Elements.scanElements_eq {cs : List Char} {xs : List String} (h : Elements cs xs) :
    scanElements cs = .ok xs := by
  induction h with
  | last h => exact h.scan_last
  | next h _ ih =>
      rw [h.scan_next, ih]
      rfl

/-! ## The scan stops where the first element offends -/

/-- A text in quotes that goes wrong. -/
theorem Offence.scanElements_eq {cs : List Char} {e : ListFault} (h : Offence cs e) :
    scanElements cs = .error e := by
  cases h with
  | unterminated hq hbefore hrest =>
      exact scanElements_of_open hq (dropBlanks_quoted hq hbefore _)
        (cutAtFirst_eq_none_iff.mpr hrest)
  | @stray before body after more q d hq hbefore hbody hafter hblank hcomma =>
      have hstray : dropBlanks (after ++ d :: more) = d :: more := by
        rw [dropBlanks_append_cons hblank, dropBlanks_eq_nil_iff.mpr hafter, List.nil_append]
      rw [scanElements_of_quote hq (dropBlanks_quoted hq hbefore _) (cutAtFirst_append hbody),
        hstray]
      simp only [if_neg hcomma]

/-- **The scan reports the leftmost element that offends.** -/
theorem FirstOffence.scanElements_eq {cs : List Char} {e : ListFault} (h : FirstOffence cs e) :
    scanElements cs = .error e := by
  induction h with
  | here h => exact h.scanElements_eq
  | later h _ ih =>
      rw [h.scan_next, ih]
      rfl

/-! ## There are no further texts -/

/-- Blanks in front of an element leave it an element. -/
theorem Element.append_left {l cs : List Char} {xs : List String}
    (hl : ∀ c ∈ l, isBlank c = true) (h : Element cs xs) : Element (l ++ cs) xs := by
  cases h with
  | quoted hq hbefore hbody hafter =>
      rw [← List.append_assoc]
      exact .quoted hq (List.forall_mem_append.mpr ⟨hl, hbefore⟩) hbody hafter
  | bare hcomma hfirst =>
      rw [← bareElement_append_left hl]
      refine .bare (fun hmem => ?_) (by rw [dropBlanks_append_left hl]; exact hfirst)
      rcases List.mem_append.mp hmem with hmem | hmem
      · exact absurd (hl ',' hmem) (by decide)
      · exact hcomma hmem

/-- A text without quotes, commas and blanks in front of it. -/
theorem element_of_bare {cs : List Char} (hcomma : ',' ∉ cs)
    (hfirst : ∀ c ∈ cs.head?, isBlank c = false ∧ isQuote c = false) :
    Element cs (bareElement cs) := by
  have hstays := dropBlanks_of_front fun c hc => (hfirst c hc).1
  exact .bare hcomma fun c hc => (hfirst c (hstays ▸ hc)).2

/-- How a text can start: it is an element, it starts with one that has a comma behind it, or what
it starts with offends. -/
inductive Start (cs : List Char) : Prop
  | whole {xs : List String} (h : Element cs xs)
  | front {first rest : List Char} {xs : List String} (hcs : cs = first ++ ',' :: rest)
      (h : Element first xs)
  | offence {e : ListFault} (h : Offence cs e)

/-- A quote behind blanks. -/
theorem start_of_quote {before : List Char} {q : Char} (hq : isQuote q = true)
    (hbefore : ∀ c ∈ before, isBlank c = true) (rest : List Char) :
    Start (before ++ q :: rest) := by
  cases hcut : cutAtFirst q rest with
  | none => exact .offence (.unterminated hq hbefore (cutAtFirst_eq_none_iff.mp hcut))
  | some parts =>
      obtain ⟨body, behind⟩ := parts
      have hbody := not_mem_of_cutAtFirst hcut
      obtain ⟨after, hafter, hbehind⟩ := exists_dropBlanks behind
      rw [eq_append_of_cutAtFirst hcut, hbehind]
      rcases hd : dropBlanks behind with _ | ⟨d, more⟩
      · rw [List.append_nil]
        exact .whole (.quoted hq hbefore hbody hafter)
      · by_cases hcomma : d = ','
        · have hparts : before ++ q :: (body ++ q :: (after ++ d :: more)) =
              (before ++ q :: (body ++ q :: after)) ++ ',' :: more := by
            rw [hcomma]
            simp
          exact .front hparts (.quoted hq hbefore hbody hafter)
        · exact .offence (.stray hq hbefore hbody hafter (dropBlanks_eq_cons hd) hcomma)

/-- Something else than a quote behind blanks. -/
theorem start_of_bare {before rest : List Char} {c : Char}
    (hbefore : ∀ c ∈ before, isBlank c = true) (hblank : isBlank c = false)
    (hc : isQuote c = false) : Start (before ++ c :: rest) := by
  cases hcut : cutAtFirst ',' (c :: rest) with
  | none =>
      refine .whole (.append_left hbefore (element_of_bare (cutAtFirst_eq_none_iff.mp hcut) ?_))
      intro x hx
      rw [← Option.some.inj hx]
      exact ⟨hblank, hc⟩
  | some parts =>
      obtain ⟨body, more⟩ := parts
      have hchars := eq_append_of_cutAtFirst hcut
      have helement : Element body (bareElement body) := by
        refine element_of_bare (not_mem_of_cutAtFirst hcut) fun x hx => ?_
        obtain ⟨body, rfl⟩ := List.head?_eq_some_iff.mp hx
        obtain ⟨rfl, -⟩ := List.cons.inj hchars
        exact ⟨hblank, hc⟩
      rw [hchars, ← List.append_assoc]
      exact .front rfl (helement.append_left hbefore)

/-- Every text starts in one of these ways: what decides is the first character that is no blank. -/
theorem start (cs : List Char) : Start cs := by
  obtain ⟨before, hbefore, hcs⟩ := exists_dropBlanks cs
  rcases hd : dropBlanks cs with _ | ⟨c, rest⟩
  · rw [hd] at hcs
    rw [hcs]
    exact .whole (.append_left hbefore (element_of_bare List.not_mem_nil nofun))
  · rw [hd] at hcs
    rw [hcs]
    by_cases hq : isQuote c = true
    · exact start_of_quote hq hbefore rest
    · exact start_of_bare hbefore (dropBlanks_eq_cons hd) (Bool.eq_false_iff.mpr hq)

/-- **Every text** has elements, or a first one that offends. -/
theorem elements_or_firstOffence (cs : List Char) :
    (∃ xs, Elements cs xs) ∨ ∃ e, FirstOffence cs e := by
  cases start cs with
  | whole h => exact .inl ⟨_, .last h⟩
  | offence h => exact .inr ⟨_, .here h⟩
  | @front first rest xs hcs h =>
      have hshorter : rest.length < cs.length := by
        rw [hcs, List.length_append, List.length_cons]
        omega
      rw [hcs]
      rcases elements_or_firstOffence rest with ⟨ys, hrest⟩ | ⟨e, hrest⟩
      · exact .inl ⟨_, .next h hrest⟩
      · exact .inr ⟨e, .later h hrest⟩
termination_by cs.length

/-- The scan and the grammar agree. -/
theorem scanElements_eq_ok_iff {cs : List Char} {xs : List String} :
    scanElements cs = .ok xs ↔ Elements cs xs := by
  refine ⟨fun h => ?_, Elements.scanElements_eq⟩
  rcases elements_or_firstOffence cs with ⟨ys, helements⟩ | ⟨e, hoffence⟩
  · obtain rfl := Except.ok.inj (h.symm.trans helements.scanElements_eq)
    exact helements
  · cases h.symm.trans hoffence.scanElements_eq

/-- No text has both elements and one that offends. -/
theorem exists_elements_iff {cs : List Char} :
    (∃ xs, Elements cs xs) ↔ ¬ ∃ e, FirstOffence cs e := by
  constructor
  · rintro ⟨xs, helements⟩ ⟨e, hoffence⟩
    cases helements.scanElements_eq.symm.trans hoffence.scanElements_eq
  · exact (elements_or_firstOffence cs).resolve_right

/-! ## Brackets -/

/-- Only a text in two brackets has something between them. -/
theorem betweenBrackets?_eq_some_iff {cs inner : List Char} :
    betweenBrackets? cs = some inner ↔ cs = '[' :: (inner ++ [']']) := by
  rw [betweenBrackets?, Option.bind_eq_some_iff]
  constructor
  · rintro ⟨rest, hrest, hinner⟩
    rw [stripStart_eq_some_iff.mp hrest, stripLast_eq_some_iff.mp hinner]
    rfl
  · rintro rfl
    exact ⟨_, stripStart_eq_some_iff.mpr rfl, stripLast_eq_some_iff.mpr rfl⟩

/-- A text in two brackets: what stands between them decides. -/
theorem readList_of_inner {text : String} {inner : List Char}
    (htext : text.toList = '[' :: (inner ++ [']'])) :
    readList text = match scanElements inner with
      | .error e => .error e
      | .ok items => if items.isEmpty then .error .empty else .ok items := by
  have hinner := betweenBrackets?_eq_some_iff.mpr htext
  cases hitems : scanElements inner <;> simp only [readList, hinner, hitems]

/-- A text without them. -/
theorem readList_of_no_inner {text : String}
    (htext : ∀ inner, text.toList ≠ '[' :: (inner ++ [']'])) :
    readList text = .error .unclosed := by
  have hnone : betweenBrackets? text.toList = none := by
    rw [Option.eq_none_iff_forall_ne_some]
    exact fun inner h => htext inner (betweenBrackets?_eq_some_iff.mp h)
  simp only [readList, hnone]

/-- **What is read as a list**: two brackets with elements between them that come to something. -/
theorem readList_eq_ok_iff {text : String} {xs : List String} :
    readList text = .ok xs ↔
      ∃ inner, text.toList = '[' :: (inner ++ [']']) ∧ Elements inner xs ∧ xs ≠ [] := by
  constructor
  · intro h
    have hne := ne_nil_of_readList h
    unfold readList at h
    split at h
    · cases h
    · next inner hinner =>
      split at h
      · cases h
      · next items hitems =>
        split at h
        · cases h
        · obtain rfl := Except.ok.inj h
          exact ⟨inner, betweenBrackets?_eq_some_iff.mp hinner,
            scanElements_eq_ok_iff.mp hitems, hne⟩
  · rintro ⟨inner, htext, helements, hne⟩
    rw [readList_of_inner htext, helements.scanElements_eq]
    simp only [List.isEmpty_iff, if_neg hne]

/-- **What is wrong with a text that is no list**: a bracket is missing, or between two brackets
there is an element that offends, the leftmost of which is reported, or there are elements that come
to nothing. -/
theorem readList_eq_error_iff {text : String} {e : ListFault} :
    readList text = .error e ↔
      (e = .unclosed ∧ ∀ inner, text.toList ≠ '[' :: (inner ++ [']'])) ∨
        ∃ inner, text.toList = '[' :: (inner ++ [']']) ∧
          (FirstOffence inner e ∨ (e = .empty ∧ Elements inner [])) := by
  constructor
  · intro h
    by_cases hinner : ∃ inner, text.toList = '[' :: (inner ++ [']'])
    · obtain ⟨inner, htext⟩ := hinner
      refine .inr ⟨inner, htext, ?_⟩
      rw [readList_of_inner htext] at h
      rcases elements_or_firstOffence inner with ⟨xs, helements⟩ | ⟨e', hoffence⟩
      · rw [helements.scanElements_eq] at h
        dsimp only at h
        split at h
        · next hempty =>
          obtain rfl := List.isEmpty_iff.mp hempty
          exact .inr ⟨(Except.error.inj h).symm, helements⟩
        · cases h
      · rw [hoffence.scanElements_eq] at h
        obtain rfl := Except.error.inj h
        exact .inl hoffence
    · have htext := not_exists.mp hinner
      rw [readList_of_no_inner htext] at h
      exact .inl ⟨(Except.error.inj h).symm, htext⟩
  · rintro (⟨rfl, htext⟩ | ⟨inner, htext, hoffence | ⟨rfl, helements⟩⟩)
    · exact readList_of_no_inner htext
    · rw [readList_of_inner htext, hoffence.scanElements_eq]
    · rw [readList_of_inner htext, helements.scanElements_eq]
      rfl

/-- **What a text comes to as a list.** It is read exactly if it is two brackets with elements of
the grammar between them, not all of which come to nothing, and then as their items in order. For
every other text there is one fault: that of a missing bracket; else that of the leftmost element
that offends; else, where no element offends, that there is nothing in the list. Elements stand
between the brackets exactly if none offends. -/
theorem readList_answers (text : String) :
    (∀ xs, readList text = .ok xs ↔
      ∃ inner, text.toList = '[' :: (inner ++ [']']) ∧ Elements inner xs ∧ xs ≠ []) ∧
    (∀ e, readList text = .error e ↔
      (e = .unclosed ∧ ∀ inner, text.toList ≠ '[' :: (inner ++ [']'])) ∨
        ∃ inner, text.toList = '[' :: (inner ++ [']']) ∧
          (FirstOffence inner e ∨ (e = .empty ∧ Elements inner []))) ∧
    ∀ inner, (∃ xs, Elements inner xs) ↔ ¬ ∃ e, FirstOffence inner e :=
  ⟨fun _ => readList_eq_ok_iff, fun _ => readList_eq_error_iff, fun _ => exists_elements_iff⟩

/-- The second element offends, and the third, which offends as well, is not looked at. -/
example : readList "[a, \"b\"x, \"c]" = .error (.strayText "x, \"c") := by decide +kernel

end SampleData.Instruction
