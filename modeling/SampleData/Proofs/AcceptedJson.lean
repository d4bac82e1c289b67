import SampleData.Proofs.JsonGrammar

/-!
# The texts that are read as JSON

A reader that asks for whole strings takes the texts of the grammar and no others. What it has read
stands before what is left, with the blanks before it; so one step of the reader adds one piece to
the text of a value, and the pieces make up the whole.

* `Builder.readsTexts`: values, items and members that are read, by induction on the steps.
* `Builder.ofText_iff`: a text is read exactly if it is one of the grammar.
-/

namespace SampleData.Json

namespace Builder

variable {κ α : Type} {b : Builder κ α} {depth : Option Nat} {a : α} {as : List α}
  {ms : List (κ × α)} {cs rest : List Char} {steps : Nat}

/-! ## Blanks in front -/

/-- More blanks may stand before a part. -/
theorem SpellsPart.pad {bs : List Char} (hbs : IsSpaces bs) (h : b.SpellsPart depth a cs) :
    b.SpellsPart depth a (bs ++ cs) := by
  cases h with
  | @mk _ _ bs' _ _ hbefore h hafter =>
      have hall : IsSpaces (bs ++ bs') := fun c hc =>
        (List.mem_append.mp hc).elim (hbs c) (hbefore c)
      rw [← List.append_assoc]
      exact .mk hall h hafter

/-- They may stand before items. -/
theorem SpellsItems.pad {bs : List Char} (hbs : IsSpaces bs) (h : b.SpellsItems depth as cs) :
    b.SpellsItems depth as (bs ++ cs) := by
  cases h with
  | last h => exact .last (h.pad hbs)
  | next h hs =>
      rw [← List.append_assoc]
      exact .next (h.pad hbs) hs

/-- They may stand before a member. -/
theorem SpellsMember.pad {bs : List Char} (hbs : IsSpaces bs) {m : κ × α}
    (h : b.SpellsMember depth m cs) : b.SpellsMember depth m (bs ++ cs) := by
  cases h with
  | @mk _ _ _ _ bs' _ _ _ hbefore hk hkey hafter h =>
      have hall : IsSpaces (bs ++ bs') := fun c hc =>
        (List.mem_append.mp hc).elim (hbs c) (hbefore c)
      rw [← List.append_assoc]
      exact .mk hall hk hkey hafter h

/-- They may stand before members. -/
theorem SpellsMembers.pad {bs : List Char} (hbs : IsSpaces bs) (h : b.SpellsMembers depth ms cs) :
    b.SpellsMembers depth ms (bs ++ cs) := by
  cases h with
  | last h => exact .last (h.pad hbs)
  | next h hs =>
      rw [← List.append_assoc]
      exact .next (h.pad hbs) hs

/-! ## What was read -/

/-- What is read as a word is the word. -/
theorem eq_of_readWord {word : List Char} (h : readWord word cs = .ok rest) :
    cs = word ++ rest := by
  induction word generalizing cs with
  | nil => exact Except.ok.inj h
  | cons w word ih =>
      cases cs with
      | nil => cases h
      | cons c cs =>
          rw [readWord] at h
          split at h
          · next hc => rw [hc, ih h, List.cons_append]
          · cases h

/-- The builder makes something of whole strings only. -/
structure TakesWhole (b : Builder κ α) : Prop where
  text : ∀ {content a}, b.text content = .ok a → ∃ s, content = .ok s
  key : ∀ {content key}, b.key content = .ok key → ∃ s, content = .ok s

/-- What is read as a string is a text of it. -/
theorem TakesWhole.spells_of_readText (hb : b.TakesWhole) (h : b.readText cs = .ok (a, rest)) :
    ∃ ts, b.Spells depth a ts ∧ '"' :: cs = ts ++ rest := by
  obtain ⟨⟨content, after⟩, hread, hmade⟩ := exists_of_bind h
  obtain ⟨a', ha, hend⟩ := exists_of_bind hmade
  cases hend
  obtain ⟨s, rfl⟩ := hb.text ha
  obtain ⟨ts, hts, rfl⟩ := readString_iff.mp hread
  refine ⟨_, .text hts ha, ?_⟩
  rw [List.cons_append, List.append_assoc]
  rfl

/-- What is read as a key is a text of it, with the colon. -/
theorem TakesWhole.spells_of_readKey (hb : b.TakesWhole) {key : κ}
    (h : b.readKey cs = .ok (key, rest)) :
    ∃ k ks bs, SpellsChars k ks ∧ b.key (.ok k) = .ok key ∧ IsSpaces bs ∧
      cs = ks ++ '"' :: (bs ++ ':' :: rest) := by
  obtain ⟨⟨content, after⟩, hread, hmade⟩ := exists_of_bind h
  obtain ⟨key', hkey, hcolon⟩ := exists_of_bind hmade
  obtain ⟨bs, hbs, hafter⟩ := exists_skipSpace after
  obtain ⟨k, rfl⟩ := hb.key hkey
  obtain ⟨ks, hks, rfl⟩ := readString_iff.mp hread
  split at hcolon
  · next heq =>
    cases hcolon
    exact ⟨k, ks, bs, hks, hkey, hbs, by rw [hafter, heq]⟩
  · cases hcolon
  · cases hcolon

/-- What is read as a number is a text of it. -/
theorem spells_of_readOther (h : b.readOther cs = .ok (a, rest)) :
    ∃ ts, b.Spells depth a ts ∧ cs = ts ++ rest := by
  unfold readOther at h
  split at h
  · cases h
  · split at h
    · obtain ⟨⟨l, after⟩, hread, h⟩ := exists_of_bind h
      simp only at h
      split at h
      · next ha =>
        cases h
        obtain ⟨ts, hts, hcs⟩ := spells_of_readNumber hread
        exact ⟨ts, .number hts ha, hcs⟩
      · cases h
    · cases h

variable (b) in
/-- With so many steps all that is read are texts of values, items and members. -/
structure ReadsTexts (steps : Nat) : Prop where
  value : ∀ {depth a cs rest}, b.readValue steps depth cs = .ok (a, rest) →
    ∃ bs ts, IsSpaces bs ∧ b.Spells depth a ts ∧ cs = bs ++ (ts ++ rest)
  items : ∀ {depth as cs rest}, b.readItems steps depth cs = .ok (as, rest) →
    ∃ ts, b.SpellsItems depth as ts ∧ cs = ts ++ ']' :: rest
  members : ∀ {depth ms cs rest}, b.readMembers steps depth cs = .ok (ms, rest) →
    ∃ ts, b.SpellsMembers depth ms ts ∧ cs = ts ++ '\x7d' :: rest

namespace ReadsTexts

/-- An array, behind its opening bracket. -/
theorem array (ih : b.ReadsTexts steps) {depth' : Option Nat} (hdepth : inside depth = some depth')
    (h : (match skipSpace cs with
      | [] => refuse .endInArray []
      | ']' :: after => .ok (b.array [], after)
      | start => (b.readItems steps depth' start).map fun p : List α × List Char =>
        (b.array p.1, p.2)) =
        .ok (a, rest)) :
    ∃ ts, b.Spells depth a ts ∧ '[' :: cs = ts ++ rest := by
  obtain ⟨bs, hbs, hcs⟩ := exists_skipSpace cs
  split at h
  · cases h
  · next heq =>
    cases h
    refine ⟨_, .emptyArray hdepth hbs, ?_⟩
    rw [hcs, heq, List.cons_append, List.append_assoc]
    rfl
  · obtain ⟨⟨as, after⟩, hread, h⟩ := exists_of_map h
    cases h
    obtain ⟨ts, hts, hstart⟩ := ih.items hread
    refine ⟨_, .array hdepth (hts.pad hbs), ?_⟩
    rw [hcs, hstart, List.cons_append, List.append_assoc, List.append_assoc]
    rfl

/-- An object, behind its opening brace. -/
theorem object (ih : b.ReadsTexts steps) {depth' : Option Nat} (hdepth : inside depth = some depth')
    (h : (match skipSpace cs with
      | [] => refuse .endInObject []
      | '\x7d' :: after => .ok (b.object [], after)
      | start => (b.readMembers steps depth' start).map fun p : List (κ × α) × List Char =>
        (b.object p.1, p.2)) =
        .ok (a, rest)) :
    ∃ ts, b.Spells depth a ts ∧ '\x7b' :: cs = ts ++ rest := by
  obtain ⟨bs, hbs, hcs⟩ := exists_skipSpace cs
  split at h
  · cases h
  · next heq =>
    cases h
    refine ⟨_, .emptyObject hdepth hbs, ?_⟩
    rw [hcs, heq, List.cons_append, List.append_assoc]
    rfl
  · obtain ⟨⟨ms, after⟩, hread, h⟩ := exists_of_map h
    cases h
    obtain ⟨ts, hts, hstart⟩ := ih.members hread
    refine ⟨_, .object hdepth (hts.pad hbs), ?_⟩
    rw [hcs, hstart, List.cons_append, List.append_assoc, List.append_assoc]
    rfl

theorem value_succ (hb : b.TakesWhole) (ih : b.ReadsTexts steps)
    (h : b.readValue (steps + 1) depth cs = .ok (a, rest)) :
    ∃ bs ts, IsSpaces bs ∧ b.Spells depth a ts ∧ cs = bs ++ (ts ++ rest) := by
  obtain ⟨bs, hbs, hcs⟩ := exists_skipSpace cs
  suffices hts : ∃ ts, b.Spells depth a ts ∧ skipSpace cs = ts ++ rest by
    obtain ⟨ts, hts, hskip⟩ := hts
    exact ⟨bs, ts, hbs, hts, hskip ▸ hcs⟩
  unfold readValue at h
  generalize skipSpace cs = start at h ⊢
  split at h
  · obtain ⟨after, hword, h⟩ := exists_of_map h
    cases h
    exact ⟨_, .null, congrArg ('n' :: ·) (eq_of_readWord hword)⟩
  · obtain ⟨after, hword, h⟩ := exists_of_map h
    cases h
    exact ⟨_, .yes, congrArg ('t' :: ·) (eq_of_readWord hword)⟩
  · obtain ⟨after, hword, h⟩ := exists_of_map h
    cases h
    exact ⟨_, .no, congrArg ('f' :: ·) (eq_of_readWord hword)⟩
  · exact hb.spells_of_readText h
  · cases hdepth : inside depth with
    | none =>
        rw [hdepth] at h
        cases h
    | some depth' =>
        rw [hdepth] at h
        exact ih.array hdepth h
  · cases hdepth : inside depth with
    | none =>
        rw [hdepth] at h
        cases h
    | some depth' =>
        rw [hdepth] at h
        exact ih.object hdepth h
  · exact spells_of_readOther h

theorem items_succ (ih : b.ReadsTexts steps)
    (h : b.readItems (steps + 1) depth cs = .ok (as, rest)) :
    ∃ ts, b.SpellsItems depth as ts ∧ cs = ts ++ ']' :: rest := by
  unfold readItems at h
  obtain ⟨⟨a, after⟩, hvalue, hrest⟩ := exists_of_bind h
  obtain ⟨bs, ts, hbs, hts, rfl⟩ := ih.value hvalue
  obtain ⟨bs', hbs', hafter⟩ := exists_skipSpace after
  have hpart := SpellsPart.mk hbs hts hbs'
  simp only at hrest
  split at hrest
  · cases hrest
  · next heq =>
    cases hrest
    refine ⟨_, .last hpart, ?_⟩
    rw [hafter, heq, List.append_assoc, List.append_assoc]
  · next others heq =>
    split at hrest
    · cases hrest
    · obtain ⟨⟨as', behind⟩, hread, hrest⟩ := exists_of_map hrest
      cases hrest
      obtain ⟨bs'', hbs'', hothers⟩ := exists_skipSpace others
      obtain ⟨more, hmore, hstart⟩ := ih.items hread
      refine ⟨_, .next hpart (hmore.pad hbs''), ?_⟩
      rw [hafter, heq, hothers, hstart]
      simp only [List.append_assoc, List.cons_append]
  · cases hrest

theorem members_succ (hb : b.TakesWhole) (ih : b.ReadsTexts steps)
    (h : b.readMembers (steps + 1) depth cs = .ok (ms, rest)) :
    ∃ ts, b.SpellsMembers depth ms ts ∧ cs = ts ++ '\x7d' :: rest := by
  unfold readMembers at h
  split at h
  · cases h
  · cases h
  · next heq =>
    obtain rfl := Nat.succ.inj heq
    obtain ⟨⟨key, value⟩, hkey, hbehind⟩ := exists_of_bind h
    obtain ⟨⟨a, after⟩, hvalue, hrest⟩ := exists_of_bind hbehind
    obtain ⟨k, ks, bs, hks, hmade, hbs, rfl⟩ := hb.spells_of_readKey hkey
    obtain ⟨bs₁, ts, hbs₁, hts, rfl⟩ := ih.value hvalue
    obtain ⟨bs₂, hbs₂, hafter⟩ := exists_skipSpace after
    have hmember := SpellsMember.mk isSpaces_nil hks hmade hbs (.mk hbs₁ hts hbs₂)
    simp only at hrest
    split at hrest
    · cases hrest
    · next heq =>
      cases hrest
      refine ⟨_, .last hmember, ?_⟩
      rw [hafter, heq]
      simp only [List.append_assoc, List.cons_append, List.nil_append]
    · next others heq =>
      split at hrest
      · cases hrest
      · obtain ⟨⟨ms', behind⟩, hread, hrest⟩ := exists_of_map hrest
        cases hrest
        obtain ⟨bs₃, hbs₃, hothers⟩ := exists_skipSpace others
        obtain ⟨more, hmore, hstart⟩ := ih.members hread
        refine ⟨_, .next hmember (hmore.pad hbs₃), ?_⟩
        rw [hafter, heq, hothers, hstart]
        simp only [List.append_assoc, List.cons_append, List.nil_append]
    · cases hrest
  · cases h

end ReadsTexts

/-- **All that is read are texts of the grammar**, with however many steps. -/
theorem TakesWhole.readsTexts (hb : b.TakesWhole) (steps : Nat) : b.ReadsTexts steps := by
  induction steps with
  | zero =>
      refine ⟨nofun, nofun, fun h => ?_⟩
      unfold readMembers at h
      cases h
  | succ steps ih => exact ⟨ih.value_succ hb, ih.items_succ, ih.members_succ hb⟩

/-- **A text is read exactly if it is one of the grammar**, and as what it is a text of. -/
theorem TakesWhole.ofText_iff (hb : b.TakesWhole) {text : String} :
    b.ofText text = .ok a ↔ b.SpellsPart b.depth a text.toList := by
  refine ⟨fun h => ?_, ofText_of_spells⟩
  have hall : b.readAll text.toList = .ok a := by
    unfold ofText at h
    cases hread : b.readAll text.toList with
    | error e =>
        rw [hread] at h
        cases h
    | ok a' =>
        rw [hread] at h
        exact congrArg Except.ok (Except.ok.inj h)
  obtain ⟨⟨a', after⟩, hvalue, hend⟩ := exists_of_bind hall
  obtain ⟨bs, ts, hbs, hts, htext⟩ := (hb.readsTexts _).value hvalue
  obtain ⟨bs', hbs', hafter⟩ := exists_skipSpace after
  simp only at hend
  split at hend
  · next heq =>
    cases hend
    rw [htext, hafter, heq, List.append_nil]
    exact .mk hbs hts hbs'
  · cases hend

end Builder

end SampleData.Json
