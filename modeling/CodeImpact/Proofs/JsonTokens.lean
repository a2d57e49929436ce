import CodeImpact.Json.Reader
import CodeImpact.Json.Writer
import CodeImpact.Proofs.Text
import Mathlib.Logic.Basic

/-!
# The tokens of written values

Both layouts of a value are cut into the same tokens. A number or a word goes on until a character
that ends it, so what is said about a text depends on how the text after it starts; all other tokens
end by themselves.
-/

namespace CodeImpact.Json

/-! ## Values and their tokens -/

/-- Values with at most `depth` levels of lists and objects, whose numbers have 64 bits and no
sign. -/
inductive Writable : Nat → Json → Prop
  | null {depth : Nat} : Writable depth .null
  | bool {depth : Nat} (b : Bool) : Writable depth (.bool b)
  | nat {depth n : Nat} (h : n < Text.wordBound) : Writable depth (.nat n)
  | str {depth : Nat} (s : String) : Writable depth (.str s)
  | arr {depth : Nat} {items : List Json} (h : ∀ v ∈ items, Writable depth v) :
    Writable (depth + 1) (.arr items)
  | obj {depth : Nat} {fields : List (String × Json)} (h : ∀ f ∈ fields, Writable depth f.2) :
    Writable (depth + 1) (.obj fields)

/-- A value can be written wherever there is more room. -/
theorem Writable.mono {depth depth' : Nat} {v : Json} (h : Writable depth v)
    (hle : depth ≤ depth') : Writable depth' v := by
  induction h generalizing depth' with
  | null => exact .null
  | bool b => exact .bool b
  | nat h => exact .nat h
  | str s => exact .str s
  | arr _ ih =>
    obtain ⟨depth', rfl⟩ := Nat.exists_eq_add_of_le' hle
    exact .arr fun v hv => ih v hv (Nat.le_add_left _ _)
  | obj _ ih =>
    obtain ⟨depth', rfl⟩ := Nat.exists_eq_add_of_le' hle
    exact .obj fun f hf => ih f hf (Nat.le_add_left _ _)

mutual

/-- The tokens of a value. -/
def tokens : Json → List Token
  | .null => [.word "null".toList]
  | .bool true => [.word "true".toList]
  | .bool false => [.word "false".toList]
  | .int n => [.word n.repr.toList]
  | .real text => [.word text.toList]
  | .str s => [.text s.toList]
  | .arr items => .openList :: itemTokens items
  | .obj fields => .openObject :: fieldTokens fields

/-- The tokens of the items of a list and of its end. -/
def itemTokens : List Json → List Token
  | [] => [.closeList]
  | [v] => v.tokens ++ [.closeList]
  | v :: rest => v.tokens ++ .comma :: itemTokens rest

/-- The tokens of the fields of an object and of its end. -/
def fieldTokens : List (String × Json) → List Token
  | [] => [.closeObject]
  | [(name, v)] => .text name.toList :: .colon :: v.tokens ++ [.closeObject]
  | (name, v) :: rest => .text name.toList :: .colon :: v.tokens ++ .comma :: fieldTokens rest

end

/-! ## Texts and their tokens -/

namespace Lexer

/-- The tokens of a text that starts in a state of the lexer. -/
def run (s : Lexer) (text : List Char) : Option (List Token) :=
  (text.foldlM step s).bind finish

@[simp] theorem run_nil (s : Lexer) : s.run [] = s.finish := rfl

theorem run_cons (s : Lexer) (c : Char) (text : List Char) :
    s.run (c :: text) = (s.step c).bind (·.run text) := by
  simp only [run, List.foldlM_cons, Option.bind_eq_bind, Option.bind_assoc]

/-- A text that says some tokens, whatever comes after it. -/
def Says (text : List Char) (ts : List Token) : Prop :=
  ∀ done rest, run ⟨done, .idle⟩ (text ++ rest) = run ⟨ts.reverse ++ done, .idle⟩ rest

/-- A text that says some tokens if what comes after it ends a word. -/
def SaysBeforeEnd (text : List Char) (ts : List Token) : Prop :=
  ∀ done rest, (∀ c ∈ rest.head?, endsWord c = true) →
    run ⟨done, .idle⟩ (text ++ rest) = run ⟨ts.reverse ++ done, .idle⟩ rest

variable {text text' : List Char} {ts ts' : List Token}

theorem Says.beforeEnd (h : Says text ts) : SaysBeforeEnd text ts :=
  fun done rest _ => h done rest

theorem says_nil : Says [] [] :=
  fun _ _ => rfl

theorem Says.append (h : Says text ts) (h' : Says text' ts') :
    Says (text ++ text') (ts ++ ts') := by
  intro done rest
  rw [List.append_assoc, h, h', List.reverse_append, List.append_assoc]

/-- A word ends where a text starts that ends words. -/
theorem SaysBeforeEnd.append (h : SaysBeforeEnd text ts) {c : Char} (hc : endsWord c = true)
    (h' : Says (c :: text') ts') : Says (text ++ c :: text') (ts ++ ts') := by
  intro done rest
  have hend : ∀ d ∈ (c :: text' ++ rest).head?, endsWord d = true := by
    intro d hd
    obtain rfl : c = d := by simpa using hd
    exact hc
  rw [List.append_assoc, h done _ hend, h', List.reverse_append, List.append_assoc]

/-- A character that is a token of its own. -/
theorem Says.cons (h : Says text ts) {c : Char} {t : Token}
    (hc : ∀ done, between done c = ⟨t :: done, .idle⟩) : Says (c :: text) (t :: ts) := by
  intro done rest
  rw [List.cons_append, run_cons, List.reverse_cons, List.append_assoc, List.singleton_append, ← h]
  simp only [step, hc, Option.bind_some]

theorem Says.space (h : Says text ts) {c : Char} (hc : isSpace c = true) : Says (c :: text) ts := by
  intro done rest
  rw [List.cons_append, run_cons, ← h]
  simp only [step, between, hc, if_true, Option.bind_some]

/-! ### Words -/

/-- A text without a character that ends words. -/
def IsWord (text : List Char) : Prop :=
  text ≠ [] ∧ ∀ c ∈ text, endsWord c = false

instance (text : List Char) : Decidable (IsWord text) :=
  decidable_of_iff ((!text.isEmpty && text.all fun c => !endsWord c) = true) (by simp [IsWord])

/-- A run of the lexer over the characters of a word. -/
theorem run_word (done : List Token) {word : List Char} (h : ∀ c ∈ word, endsWord c = false)
    (acc rest : List Char) :
    run ⟨done, .word acc⟩ (word ++ rest) = run ⟨done, .word (word.reverse ++ acc)⟩ rest := by
  induction word generalizing acc with
  | nil => rfl
  | cons c word ih =>
    obtain ⟨hc, hword⟩ := List.forall_mem_cons.1 h
    rw [List.cons_append, run_cons]
    simp only [step, hc, Bool.false_eq_true, if_false, Option.bind_some]
    rw [ih hword, List.reverse_cons, List.append_assoc, List.singleton_append]

/-- At its end a word becomes a token. -/
theorem run_word_end (done : List Token) (acc : List Char) {rest : List Char}
    (h : ∀ c ∈ rest.head?, endsWord c = true) :
    run ⟨done, .word acc⟩ rest = run ⟨.word acc.reverse :: done, .idle⟩ rest := by
  cases rest with
  | nil => rfl
  | cons c rest =>
    have hc : endsWord c = true := h c rfl
    rw [run_cons, run_cons]
    simp only [step, hc, if_true]

theorem saysBeforeEnd_word {word : List Char} (h : IsWord word) :
    SaysBeforeEnd word [.word word] := by
  intro done rest hrest
  obtain ⟨hne, hword⟩ := h
  cases word with
  | nil => exact absurd rfl hne
  | cons c word =>
    obtain ⟨hc, hword⟩ := List.forall_mem_cons.1 hword
    have hstart : between done c = ⟨done, .word [c]⟩ := by
      simp only [endsWord, Bool.or_eq_false_iff, Option.isSome_eq_false_iff,
        Option.isNone_iff_eq_none, decide_eq_false_iff_not] at hc
      obtain ⟨⟨hspace, hquote⟩, hpunctuation⟩ := hc
      simp [between, hspace, hquote, hpunctuation]
    rw [List.cons_append, run_cons]
    simp only [step, hstart, Option.bind_some]
    rw [run_word done hword, run_word_end done _ hrest]
    simp

/-! ### Quoted texts -/

theorem hexValue?_hexDigit : ∀ d < 16, Digest.hexValue? (Digest.hexDigit d) = some d := by
  decide

/-- Four hexadecimal digits that write a number below 256 make that character. -/
theorem run_code (done : List Token) (acc : List Char) {n : Nat} (h : n < 256) (rest : List Char) :
    run ⟨done, .code acc 3 0⟩ ('0' :: '0' :: (Digest.hexByte (UInt8.ofNat n) ++ rest)) =
      run ⟨done, .text (Char.ofNat n :: acc)⟩ rest := by
  have hzero : Digest.hexValue? '0' = some 0 := rfl
  have hhigh := hexValue?_hexDigit (n / 16) (by omega)
  have hlow := hexValue?_hexDigit (n % 16) (by omega)
  have hbyte : (UInt8.ofNat n).toNat = n := UInt8.toNat_ofNat_of_lt' h
  have hvalue : 16 * (n / 16) + n % 16 = n := Nat.div_add_mod n 16
  have hclose : closeCode done acc n = some ⟨done, .text (Char.ofNat n :: acc)⟩ := by
    rw [closeCode, if_neg (by omega), if_neg (by omega)]
  simp only [Digest.hexByte, hbyte, List.cons_append, List.nil_append, run_cons, step, hzero, hhigh,
    hlow, Option.bind_some, Nat.mul_zero, Nat.zero_add, hvalue, hclose]

/-- A written character is read as itself. -/
theorem run_escapeChar (done : List Token) (acc : List Char) (c : Char) (rest : List Char) :
    run ⟨done, .text acc⟩ (escapeChar c ++ rest) = run ⟨done, .text (c :: acc)⟩ rest := by
  -- The letters that have an escape of two characters.
  have hletter : ∀ {e : Char}, e ≠ 'u' → escaped? e = some c →
      run ⟨done, .text acc⟩ (['\\', e] ++ rest) = run ⟨done, .text (c :: acc)⟩ rest := by
    intro e hu he
    simp [run_cons, step, hu, he]
  unfold escapeChar
  split_ifs with hquote hback hbell htab hfeed hform hreturn hcontrol
  · subst hquote; exact hletter (by decide) rfl
  · subst hback; exact hletter (by decide) rfl
  · subst hbell; exact hletter (by decide) rfl
  · subst htab; exact hletter (by decide) rfl
  · subst hfeed; exact hletter (by decide) rfl
  · subst hform; exact hletter (by decide) rfl
  · subst hreturn; exact hletter (by decide) rfl
  · have hcode := run_code done acc (show c.toNat < 256 by omega) rest
    rw [Char.ofNat_toNat] at hcode
    rw [← hcode]
    simp [run_cons, step]
  · simp [run_cons, step, hquote, hback, hcontrol]

/-- A run of the lexer over an escaped text, up to its closing quote. -/
theorem run_text (done : List Token) (s acc rest : List Char) :
    run ⟨done, .text acc⟩ (s.flatMap escapeChar ++ '\"' :: rest) =
      run ⟨.text (acc.reverse ++ s) :: done, .idle⟩ rest := by
  induction s generalizing acc with
  | nil => simp [run_cons, step]
  | cons c s ih =>
    rw [List.flatMap_cons, List.append_assoc, run_escapeChar, ih]
    simp

theorem says_quote (s : String) : Says (quote s) [.text s.toList] := by
  intro done rest
  have hstart : between done '\"' = ⟨done, .text []⟩ := rfl
  rw [quote, List.cons_append, List.cons_append, run_cons, List.append_assoc, List.singleton_append]
  simp only [step, hstart, Option.bind_some]
  rw [run_text]
  simp

/-! ### Space -/

/-- Nothing but space between tokens. -/
def Blank (text : List Char) : Prop :=
  ∀ c ∈ text, isSpace c = true

theorem blank_nil : Blank [] := by
  simp [Blank]

theorem blank_newLine (level : Nat) : Blank (newLine level) := by
  intro c hc
  rcases List.mem_cons.1 hc with rfl | hc
  · rfl
  · rw [List.eq_of_mem_replicate hc]
    rfl

theorem Says.blank (h : Says text ts) {gap : List Char} (hgap : Blank gap) :
    Says (gap ++ text) ts := by
  induction gap with
  | nil => exact h
  | cons c gap ih =>
    obtain ⟨hc, hgap⟩ := List.forall_mem_cons.1 hgap
    exact (ih hgap).space hc

/-! ### Items and fields -/

section Steps

variable {gap : List Char}

/-- A value and the end of the list or object that it is the last of. -/
theorem SaysBeforeEnd.close (h : SaysBeforeEnd text ts) (hgap : Blank gap) {c : Char} {t : Token}
    (hend : endsWord c = true) (hc : ∀ done, between done c = ⟨t :: done, .idle⟩) :
    Says (text ++ (gap ++ [c])) (ts ++ [t]) := by
  have hclose : Says (gap ++ [c]) [t] := (says_nil.cons hc).blank hgap
  cases gap with
  | nil => exact h.append hend hclose
  | cons d gap =>
    have hd : endsWord d = true := by
      rw [endsWord, hgap d List.mem_cons_self, Bool.true_or, Bool.true_or]
    exact h.append hd hclose

/-- A value and what follows it in a list or an object. -/
theorem SaysBeforeEnd.comma (h : SaysBeforeEnd text ts) (hgap : Blank gap) (h' : Says text' ts') :
    Says (text ++ ',' :: (gap ++ text')) (ts ++ .comma :: ts') :=
  h.append rfl ((h'.blank hgap).cons fun _ => rfl)

/-- A field with its value. -/
theorem SaysBeforeEnd.field (h : SaysBeforeEnd text ts) (hgap : Blank gap) (name : String) :
    SaysBeforeEnd (quote name ++ ':' :: (gap ++ text)) (.text name.toList :: .colon :: ts) := by
  intro done rest hrest
  have hgap' : Says gap [] := by simpa using says_nil.blank hgap
  have hname : Says (quote name ++ ':' :: gap) [.text name.toList, .colon] :=
    (says_quote name).append (hgap'.cons fun _ => rfl)
  have htext : quote name ++ ':' :: (gap ++ text) ++ rest =
      (quote name ++ ':' :: gap) ++ (text ++ rest) := by
    simp
  rw [htext, hname, h _ _ hrest]
  simp

end Steps

end Lexer

/-! ## Layouts -/

open Lexer

/-- The items of a list in the compact layout, with their commas. -/
theorem says_compactItems {items : List Json}
    (h : ∀ v ∈ items, SaysBeforeEnd v.compactChars v.tokens) :
    Says (compactItems items) (itemTokens items) := by
  induction items with
  | nil => exact says_nil.cons fun _ => rfl
  | cons v rest ih =>
    obtain ⟨hv, hrest⟩ := List.forall_mem_cons.1 h
    cases rest with
    | nil => exact hv.close blank_nil rfl fun _ => rfl
    | cons w rest => exact hv.comma blank_nil (ih hrest)

theorem says_compactFields {fields : List (String × Json)}
    (h : ∀ f ∈ fields, SaysBeforeEnd f.2.compactChars f.2.tokens) :
    Says (compactFields fields) (fieldTokens fields) := by
  induction fields with
  | nil => exact says_nil.cons fun _ => rfl
  | cons f rest ih =>
    obtain ⟨hf, hrest⟩ := List.forall_mem_cons.1 h
    have hfield := hf.field blank_nil f.1
    cases rest with
    | nil => exact hfield.close blank_nil rfl fun _ => rfl
    | cons g rest =>
      have hcomma := hfield.comma blank_nil (ih hrest)
      exact hcomma

/-- The items of a list in the layout with lines: the same tokens. -/
theorem says_prettyItems {level : Nat} {items : List Json} (hne : items ≠ [])
    (h : ∀ v ∈ items, SaysBeforeEnd (v.prettyChars (level + 1)) v.tokens) :
    Says (prettyItems level items) (itemTokens items) := by
  induction items with
  | nil => exact absurd rfl hne
  | cons v rest ih =>
    obtain ⟨hv, hrest⟩ := List.forall_mem_cons.1 h
    cases rest with
    | nil =>
      have hclose := hv.close (blank_newLine level) rfl (c := ']') fun _ => rfl
      rwa [← List.append_assoc] at hclose
    | cons w rest =>
      have hcomma := hv.comma (blank_newLine (level + 1)) (ih (by simp) hrest)
      rwa [← List.cons_append (a := ','), ← List.append_assoc] at hcomma

theorem says_prettyFields {level : Nat} {fields : List (String × Json)} (hne : fields ≠ [])
    (h : ∀ f ∈ fields, SaysBeforeEnd (f.2.prettyChars (level + 1)) f.2.tokens) :
    Says (prettyFields level fields) (fieldTokens fields) := by
  induction fields with
  | nil => exact absurd rfl hne
  | cons f rest ih =>
    obtain ⟨hf, hrest⟩ := List.forall_mem_cons.1 h
    have hfield := hf.field (show Blank [' '] by simp [Blank, isSpace]) f.1
    cases rest with
    | nil =>
      have hclose := hfield.close (blank_newLine level) rfl (c := '\x7d') fun _ => rfl
      rwa [← List.append_assoc] at hclose
    | cons g rest =>
      have hcomma := hfield.comma (blank_newLine (level + 1)) (ih (by simp) hrest)
      rwa [← List.cons_append (a := ','), ← List.append_assoc] at hcomma

theorem not_endsWord_of_isDigit {c : Char} (h : c.isDigit = true) : endsWord c = false := by
  by_contra hends
  have hcase : c = ' ' ∨ c = '\t' ∨ c = '\n' ∨ c = '\r' ∨ c = '\"' ∨ c = '[' ∨ c = ']' ∨
      c = '\x7b' ∨ c = '\x7d' ∨ c = ',' ∨ c = ':' := by
    simp only [endsWord, isSpace, punctuation?] at hends
    grind
  rcases hcase with rfl | rfl | rfl | rfl | rfl | rfl | rfl | rfl | rfl | rfl | rfl <;> cases h

theorem toList_repr_natCast (n : Nat) : (n : Int).repr.toList = Nat.toDigits 10 n := by
  rw [← Nat.toList_repr]
  rfl

theorem isWord_repr (n : Nat) : IsWord (n : Int).repr.toList := by
  rw [toList_repr_natCast]
  have hdigits := List.all_eq_true.1 (Text.all_isDigit_toDigits n)
  exact ⟨Nat.toDigits_ne_nil, fun c hc => not_endsWord_of_isDigit (hdigits c hc)⟩

theorem tokens?_eq_some {text : List Char} {ts : List Token} (h : SaysBeforeEnd text ts) :
    tokens? text = some ts := by
  have hrun := h [] [] (by simp)
  rw [List.append_nil, List.append_nil] at hrun
  rw [tokens?, ← Lexer.run, hrun, run_nil, finish, List.reverse_reverse]

/-- The compact layout of a value says its tokens. -/
theorem saysBeforeEnd_compactChars {depth : Nat} {v : Json} (h : Writable depth v) :
    SaysBeforeEnd v.compactChars v.tokens := by
  induction h with
  | null => exact saysBeforeEnd_word (show IsWord "null".toList by decide)
  | bool b =>
    cases b with
    | true => exact saysBeforeEnd_word (show IsWord "true".toList by decide)
    | false => exact saysBeforeEnd_word (show IsWord "false".toList by decide)
  | nat => exact saysBeforeEnd_word (isWord_repr _)
  | str s => exact (says_quote s).beforeEnd
  | arr _ ih => exact ((says_compactItems ih).cons fun _ => rfl).beforeEnd
  | obj _ ih => exact ((says_compactFields ih).cons fun _ => rfl).beforeEnd

/-- The layout with one item per line says the same tokens. -/
theorem saysBeforeEnd_prettyChars {depth : Nat} {v : Json} (h : Writable depth v) (level : Nat) :
    SaysBeforeEnd (v.prettyChars level) v.tokens := by
  induction h generalizing level with
  | null => exact saysBeforeEnd_word (show IsWord "null".toList by decide)
  | bool b =>
    cases b with
    | true => exact saysBeforeEnd_word (show IsWord "true".toList by decide)
    | false => exact saysBeforeEnd_word (show IsWord "false".toList by decide)
  | nat => exact saysBeforeEnd_word (isWord_repr _)
  | str s => exact (says_quote s).beforeEnd
  | @arr depth items _ ih =>
    cases items with
    | nil => exact ((says_nil.cons fun _ => rfl).cons fun _ => rfl).beforeEnd
    | cons v rest =>
      have hitems := says_prettyItems (List.cons_ne_nil v rest) fun w hw => ih w hw (level + 1)
      exact ((hitems.blank (blank_newLine (level + 1))).cons fun _ => rfl).beforeEnd
  | @obj depth fields _ ih =>
    cases fields with
    | nil => exact ((says_nil.cons fun _ => rfl).cons fun _ => rfl).beforeEnd
    | cons f rest =>
      have hfields := says_prettyFields (List.cons_ne_nil f rest) fun g hg => ih g hg (level + 1)
      exact ((hfields.blank (blank_newLine (level + 1))).cons fun _ => rfl).beforeEnd

end CodeImpact.Json
