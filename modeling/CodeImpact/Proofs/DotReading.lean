import CodeImpact.Table
import Mathlib.Data.List.Infix

/-!
# Reading DOT texts

A text in the DOT language is cut into tokens, where a backslash between quotes escapes the next
character. Tokens make statements that end in a semicolon, and blocks of them between braces. A text
that can be read has balanced braces. What is written is composed of texts that start and end between
tokens and between statements, and each of them adds its own parts.
-/

namespace CodeImpact.Dot

/-! ## Tokens -/

/-- A text between quotes, a word, or any other character. -/
inductive Token
  | quoted (text : String)
  | word (text : String)
  | mark (c : Char)
  deriving DecidableEq, Repr

/-- Where a text is being read. The characters of a token are kept with the last one first. -/
inductive Place
  | between
  | inWord (chars : List Char)
  | inQuotes (chars : List Char)
  /-- Behind a backslash between quotes. -/
  | escaped (chars : List Char)
  deriving DecidableEq, Repr

/-- A text that has been read up to a place, with its tokens, the last one first. -/
structure Lexer where
  place : Place
  tokens : List Token
  deriving DecidableEq, Repr

/-- Whether a character can be part of a word. -/
def isWordChar (c : Char) : Bool :=
  c.isAlphanum || c = '_'

namespace Lexer

/-- Reads a character between tokens. -/
def start (tokens : List Token) (c : Char) : Lexer :=
  if c = '\"' then ⟨.inQuotes [], tokens⟩
  else if isWordChar c then ⟨.inWord [c], tokens⟩
  else if c = ' ' || c = '\n' then ⟨.between, tokens⟩
  else ⟨.between, .mark c :: tokens⟩

/-- Reads a character. -/
def step (l : Lexer) (c : Char) : Lexer :=
  match l.place with
  | .between => start l.tokens c
  | .inWord chars =>
    if isWordChar c then ⟨.inWord (c :: chars), l.tokens⟩
    else start (.word (String.ofList chars.reverse) :: l.tokens) c
  | .inQuotes chars =>
    if c = '\\' then ⟨.escaped chars, l.tokens⟩
    else if c = '\"' then ⟨.between, .quoted (String.ofList chars.reverse) :: l.tokens⟩
    else ⟨.inQuotes (c :: chars), l.tokens⟩
  | .escaped chars => ⟨.inQuotes (c :: chars), l.tokens⟩

/-- The tokens in order, if no quote is open. -/
def finish? (l : Lexer) : Option (List Token) :=
  match l.place with
  | .between => some l.tokens.reverse
  | .inWord chars => some (.word (String.ofList chars.reverse) :: l.tokens).reverse
  | .inQuotes _ | .escaped _ => none

end Lexer

/-- The tokens of a text. -/
def tokens? (text : String) : Option (List Token) :=
  (text.toList.foldl Lexer.step ⟨.between, []⟩).finish?

/-! ## Statements and blocks -/

/-- The value that a token gives to a name. -/
def Token.value? : Token → Option String
  | .quoted text | .word text => some text
  | .mark _ => none

/-- Names with values, between commas and up to a closing bracket. -/
def attributes? : List Token → Option (List (String × String))
  | [.word name, .mark '=', value, .mark ']'] => value.value?.map fun v => [(name, v)]
  | .word name :: .mark '=' :: value :: .mark ',' :: rest =>
    value.value?.bind fun v => (attributes? rest).map ((name, v) :: ·)
  | _ => none

/-- A statement. -/
inductive Statement
  | node (id : String) (attributes : List (String × String))
  | edge (source target : String) (attributes : List (String × String))
  /-- A value of the graph or of the subgraph around it. -/
  | setting (name value : String)
  /-- What holds for everything of a kind. -/
  | defaults (kind : String) (attributes : List (String × String))
  deriving DecidableEq, Repr

/-- The statement that the tokens before a semicolon make. -/
def Statement.ofTokens? : List Token → Option Statement
  | .quoted id :: .mark '[' :: rest => (attributes? rest).map (.node id)
  | .quoted source :: .mark '-' :: .mark '>' :: .quoted target :: .mark '[' :: rest =>
    (attributes? rest).map (.edge source target)
  | [.word name, .mark '=', value] => value.value?.map (.setting name)
  | .word kind :: .mark '[' :: rest => (attributes? rest).map (.defaults kind)
  | _ => none

/-- A statement, or a block with the two words before it. -/
inductive Part
  | statement (s : Statement)
  | block (keyword name : String) (parts : List Part)

/-- A block that has not ended: the words before it, and the parts before these. -/
structure OpenBlock where
  keyword : String
  name : String
  earlier : List Part

/-- Tokens that have been read: the open blocks, the innermost one first, the parts in it, and the
tokens behind the last part. -/
structure Builder where
  blocks : List OpenBlock
  parts : List Part
  pending : List Token

namespace Builder

/-- Reads a token. -/
def step (b : Builder) : Token → Option Builder
  | .mark ';' => (Statement.ofTokens? b.pending).map fun s =>
    ⟨b.blocks, b.parts ++ [.statement s], []⟩
  | .mark '\x7b' =>
    match b.pending with
    | [.word keyword, .word name] => some ⟨⟨keyword, name, b.parts⟩ :: b.blocks, [], []⟩
    | _ => none
  | .mark '\x7d' =>
    match b.pending, b.blocks with
    | [], o :: blocks => some ⟨blocks, o.earlier ++ [.block o.keyword o.name b.parts], []⟩
    | _, _ => none
  | t => some ⟨b.blocks, b.parts, b.pending ++ [t]⟩

/-- The parts, if all blocks and statements have ended. -/
def finish? (b : Builder) : Option (List Part) :=
  if b.blocks.isEmpty && b.pending.isEmpty then some b.parts else none

end Builder

/-- The parts that tokens make. -/
def parts? (tokens : List Token) : Option (List Part) :=
  (tokens.foldlM Builder.step ⟨[], [], []⟩).bind Builder.finish?

/-- The parts of a text. -/
def read? (text : String) : Option (List Part) :=
  (tokens? text).bind parts?

/-! ## Braces -/

/-- Every closing brace follows an opening one of its own, and every opening brace is closed. -/
def Balanced (tokens : List Token) : Prop :=
  (∀ front, front <+: tokens → front.count (.mark '\x7d') ≤ front.count (.mark '\x7b')) ∧
    tokens.count (.mark '\x7d') = tokens.count (.mark '\x7b')

/-- One token: open blocks change with the braces. -/
theorem Builder.length_blocks_step {b b' : Builder} {t : Token} (h : b.step t = some b') :
    b'.blocks.length + [t].count (.mark '\x7d') = b.blocks.length + [t].count (.mark '\x7b') := by
  unfold step at h
  split at h
  · obtain ⟨s, -, rfl⟩ := Option.map_eq_some_iff.1 h
    rfl
  · split at h
    · obtain rfl := Option.some.inj h
      rfl
    · cases h
  · split at h
    next o blocks _ hblocks =>
      obtain rfl := Option.some.inj h
      rw [hblocks]
      rfl
    · cases h
  next hsemicolon hopen hclose =>
    obtain rfl := Option.some.inj h
    have hopen' : t ≠ .mark '\x7b' := hopen
    have hclose' : t ≠ .mark '\x7d' := hclose
    simp [hopen', hclose']

/-- A run of tokens: open blocks change with the braces. -/
theorem Builder.length_blocks_run {b b' : Builder} {tokens : List Token}
    (h : tokens.foldlM step b = some b') :
    b'.blocks.length + tokens.count (.mark '\x7d') =
      b.blocks.length + tokens.count (.mark '\x7b') := by
  induction tokens generalizing b with
  | nil =>
    obtain rfl := Option.some.inj h
    rfl
  | cons t tokens ih =>
    rw [List.foldlM_cons] at h
    obtain ⟨next, hnext, hrest⟩ := Option.bind_eq_some_iff.1 h
    have hstep := length_blocks_step hnext
    have hrun := ih hrest
    rw [List.count_cons, List.count_cons]
    rw [List.count_singleton, List.count_singleton] at hstep
    omega

/-- A text that can be read has balanced braces. -/
theorem balanced_of_parts? {tokens : List Token} {parts : List Part}
    (h : parts? tokens = some parts) : Balanced tokens := by
  obtain ⟨b, hb, hfinish⟩ := Option.bind_eq_some_iff.1 h
  constructor
  · rintro front ⟨later, rfl⟩
    rw [List.foldlM_append] at hb
    obtain ⟨middle, hmiddle, -⟩ := Option.bind_eq_some_iff.1 hb
    have hrun := Builder.length_blocks_run hmiddle
    simp only [List.length_nil] at hrun
    omega
  · have hrun := Builder.length_blocks_run hb
    obtain ⟨hended, -⟩ := Option.ite_none_right_eq_some.1 hfinish
    have hblocks : b.blocks = [] := by
      simpa using (Bool.and_eq_true_iff.1 hended).1
    rw [hblocks] at hrun
    simpa using hrun

/-! ## Texts and what they add -/

/-- A text that starts and ends between tokens adds these. -/
def Spells (text : List Char) (tokens : List Token) : Prop :=
  ∀ done, text.foldl Lexer.step ⟨.between, done⟩ = ⟨.between, tokens.reverse ++ done⟩

/-- Tokens that start and end between statements add these parts. -/
def Builds (tokens : List Token) (parts : List Part) : Prop :=
  ∀ blocks earlier, tokens.foldlM Builder.step ⟨blocks, earlier, []⟩ =
    some ⟨blocks, earlier ++ parts, []⟩

/-- A text adds these parts. -/
def Writes (text : List Char) (parts : List Part) : Prop :=
  ∃ tokens, Spells text tokens ∧ Builds tokens parts

/-- Texts that are spelled one after the other are spelled together. -/
theorem Spells.append {text text' : List Char} {tokens tokens' : List Token}
    (h : Spells text tokens) (h' : Spells text' tokens') :
    Spells (text ++ text') (tokens ++ tokens') := by
  intro done
  rw [List.foldl_append, h done, h', List.reverse_append, List.append_assoc]

/-- Parts that are built one after the other are built together. -/
theorem Builds.append {tokens tokens' : List Token} {parts parts' : List Part}
    (h : Builds tokens parts) (h' : Builds tokens' parts') :
    Builds (tokens ++ tokens') (parts ++ parts') := by
  intro blocks earlier
  rw [List.foldlM_append, h blocks earlier, ← List.append_assoc]
  exact h' blocks (earlier ++ parts)

/-- Parts between braces become a block. -/
theorem Builds.block {tokens : List Token} {parts : List Part} (h : Builds tokens parts)
    (keyword name : String) :
    Builds (.word keyword :: .word name :: .mark '\x7b' :: (tokens ++ [.mark '\x7d']))
      [.block keyword name parts] := by
  intro blocks earlier
  have hinner := h (⟨keyword, name, earlier⟩ :: blocks) []
  change (tokens ++ [Token.mark '\x7d']).foldlM Builder.step
    ⟨⟨keyword, name, earlier⟩ :: blocks, [], []⟩ = _
  rw [List.foldlM_append, hinner]
  rfl

theorem Writes.nil : Writes [] [] :=
  ⟨[], fun _ => rfl, fun _ _ => by simp⟩

theorem Writes.append {text text' : List Char} {parts parts' : List Part} (h : Writes text parts)
    (h' : Writes text' parts') : Writes (text ++ text') (parts ++ parts') := by
  obtain ⟨tokens, hspells, hbuilds⟩ := h
  obtain ⟨tokens', hspells', hbuilds'⟩ := h'
  exact ⟨tokens ++ tokens', hspells.append hspells', hbuilds.append hbuilds'⟩

/-- Texts one after the other add the parts of each. -/
theorem Writes.flatMap {α : Type} {text : α → List Char} {parts : α → List Part} {as : List α}
    (h : ∀ a ∈ as, Writes (text a) (parts a)) : Writes (as.flatMap text) (as.flatMap parts) := by
  induction as with
  | nil => exact .nil
  | cons a as ih =>
    obtain ⟨ha, has⟩ := List.forall_mem_cons.1 h
    rw [List.flatMap_cons, List.flatMap_cons]
    exact ha.append (ih has)

/-- A block between its braces adds itself. -/
theorem Writes.block {front text back : List Char} {keyword name : String} {parts : List Part}
    (hfront : Spells front [.word keyword, .word name, .mark '\x7b']) (h : Writes text parts)
    (hback : Spells back [.mark '\x7d']) :
    Writes (front ++ (text ++ back)) [.block keyword name parts] := by
  obtain ⟨tokens, hspells, hbuilds⟩ := h
  exact ⟨_, hfront.append (hspells.append hback), hbuilds.block keyword name⟩

theorem read?_of_writes {text : String} {parts : List Part} (h : Writes text.toList parts) :
    read? text = some parts := by
  obtain ⟨tokens, hspells, hbuilds⟩ := h
  have htokens : tokens? text = some tokens := by
    rw [tokens?, hspells [], List.append_nil]
    exact congrArg some (List.reverse_reverse tokens)
  rw [read?, htokens, Option.bind_some, parts?, hbuilds [] []]
  rfl

/-! ## Words and quoted texts -/

/-- A run of the lexer over the characters of a word. -/
theorem foldl_word {word : List Char} (h : ∀ c ∈ word, isWordChar c = true) (front : List Char)
    (done : List Token) :
    word.foldl Lexer.step ⟨.inWord front, done⟩ = ⟨.inWord (word.reverse ++ front), done⟩ := by
  induction word generalizing front with
  | nil => rfl
  | cons c word ih =>
    obtain ⟨hc, hword⟩ := List.forall_mem_cons.1 h
    rw [List.foldl_cons, Lexer.step]
    simp only [hc, if_true]
    rw [ih hword, List.reverse_cons, List.append_assoc, List.singleton_append]

theorem spells_word {word : String} (hne : word ≠ "")
    (hword : ∀ c ∈ word.toList, isWordChar c = true) :
    Spells (word.toList ++ [' ']) [.word word] := by
  intro done
  cases hchars : word.toList with
  | nil => exact absurd (String.toList_eq_nil_iff.1 hchars) hne
  | cons c rest =>
    rw [hchars] at hword
    obtain ⟨hc, hrest⟩ := List.forall_mem_cons.1 hword
    have hquote : c ≠ '\"' := by
      rintro rfl
      exact absurd hc (by decide)
    have hstart : Lexer.step ⟨.between, done⟩ c = ⟨.inWord [c], done⟩ := by
      simp [Lexer.step, Lexer.start, hquote, hc]
    have hend : String.ofList (rest.reverse ++ [c]).reverse = word := by
      rw [List.reverse_append, List.reverse_reverse, List.reverse_singleton, List.singleton_append,
        ← hchars, String.ofList_toList]
    rw [List.cons_append, List.foldl_cons, hstart, List.foldl_append, foldl_word hrest,
      List.foldl_cons, List.foldl_nil]
    simp only [Lexer.step, hend]
    rfl

end CodeImpact.Dot
