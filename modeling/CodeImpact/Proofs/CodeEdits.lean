import CodeImpact.Proofs.BodyTokens

/-!
# Edits that keep the digest of a body

Bodies have the same code if they differ in comments and in the blanks around leaves only. Comments
may be added and taken away wherever other children are left, since a node without children would be
a leaf. Bytes between leaves may be replaced, which moves the leaves behind them. What comes of any
number of such edits has the tokens of the first body, and so its digest.
-/

namespace CodeImpact

/-! ## Comments and space -/

mutual

/-- Two nodes, each in a source of its own, with the same code: one comment may stand for another,
leaves may differ in the blanks around their texts, and comments may come and go among the children
of nodes that have others. -/
inductive SameCode (src src' : SourceText) : Tree → Tree → Prop
  | comment {t t' : Tree} (h : t.isComment = true) (h' : t'.isComment = true) :
      SameCode src src' t t'
  | leaf {t t' : Tree} (hcomment : t.isComment = t'.isComment) (h : t.children = [])
      (h' : t'.children = []) (htext : Text.trim (src.text t) = Text.trim (src'.text t')) :
      SameCode src src' t t'
  | inner {t t' : Tree} (hcomment : t.isComment = t'.isComment) (h : t.children ≠ [])
      (h' : t'.children ≠ []) (hchildren : SameCodes src src' t.children t'.children) :
      SameCode src src' t t'

/-- Two lists of nodes with the same code. -/
inductive SameCodes (src src' : SourceText) : List Tree → List Tree → Prop
  | nil : SameCodes src src' [] []
  | cons {t t' : Tree} {ts ts' : List Tree} (h : SameCode src src' t t')
      (hrest : SameCodes src src' ts ts') : SameCodes src src' (t :: ts) (t' :: ts')
  | delete {c : Tree} {ts ts' : List Tree} (hc : c.isComment = true)
      (hrest : SameCodes src src' ts ts') : SameCodes src src' (c :: ts) ts'
  | insert {c : Tree} {ts ts' : List Tree} (hc : c.isComment = true)
      (hrest : SameCodes src src' ts ts') : SameCodes src src' ts (c :: ts')

end

mutual

/-- The same code has the same tokens. -/
theorem SameCode.bodyTokens_eq {src src' : SourceText} : {t t' : Tree} → SameCode src src' t t' →
    bodyTokens src t = bodyTokens src' t'
  | t, t', .comment h h' => by
    rw [CodeImpact.bodyTokens_eq, CodeImpact.bodyTokens_eq, if_pos h, if_pos h']
  | t, t', .leaf hcomment h h' htext => by
    rw [CodeImpact.bodyTokens_eq, CodeImpact.bodyTokens_eq, hcomment, h, h', leafTokens, leafTokens,
      htext]
    rfl
  | t, t', .inner hcomment h h' hchildren => by
    rw [CodeImpact.bodyTokens_eq, CodeImpact.bodyTokens_eq, hcomment, hchildren.bodyTokensIn_eq]
    simp [h, h']

theorem SameCodes.bodyTokensIn_eq {src src' : SourceText} : {ts ts' : List Tree} →
    SameCodes src src' ts ts' → bodyTokensIn src ts = bodyTokensIn src' ts'
  | _, _, .nil => rfl
  | _, _, .cons h hrest => by
    rw [bodyTokensIn, bodyTokensIn, h.bodyTokens_eq, hrest.bodyTokensIn_eq]
  | _, _, .delete hc hrest => by
    rw [bodyTokensIn, CodeImpact.bodyTokens_eq, if_pos hc, List.nil_append, hrest.bodyTokensIn_eq]
  | _, _, .insert hc hrest => by
    rw [bodyTokensIn, CodeImpact.bodyTokens_eq src', if_pos hc, List.nil_append,
      hrest.bodyTokensIn_eq]

end

/-! ## Sources with another gap -/

namespace Tree

mutual

/-- The same node with other offsets, here and under it. -/
def relocate (f : Nat × Nat → Nat × Nat) : Tree → Tree
  | ⟨kind, isNamed, field, start, stop, children⟩ =>
    ⟨kind, isNamed, field, (f (start, stop)).1, (f (start, stop)).2, relocateAll f children⟩

/-- The same nodes with other offsets. -/
def relocateAll (f : Nat × Nat → Nat × Nat) : List Tree → List Tree
  | [] => []
  | t :: rest => t.relocate f :: relocateAll f rest

end

theorem isComment_relocate (f : Nat × Nat → Nat × Nat) (t : Tree) :
    (t.relocate f).isComment = t.isComment := by
  obtain ⟨kind, isNamed, field, start, stop, children⟩ := t
  rw [relocate]
  rfl

theorem children_relocate (f : Nat × Nat → Nat × Nat) (t : Tree) :
    (t.relocate f).children = relocateAll f t.children := by
  obtain ⟨kind, isNamed, field, start, stop, children⟩ := t
  rw [relocate]

theorem relocateAll_eq_nil_iff {f : Nat × Nat → Nat × Nat} {ts : List Tree} :
    relocateAll f ts = [] ↔ ts = [] := by
  cases ts <;> simp [relocateAll]

end Tree

mutual

/-- Other offsets change no code if the leaves outside comments keep their texts. -/
theorem sameCode_relocate {src src' : SourceText} {f : Nat × Nat → Nat × Nat} : (t : Tree) →
    (above : List (Nat × Tree)) → above.any (·.2.isComment) = false →
    (∀ x ∈ Focus.all t above, x.node.children = [] → x.inComment = false →
      src'.text (x.node.relocate f) = src.text x.node) → SameCode src src' t (t.relocate f)
  | ⟨kind, isNamed, field, start, stop, children⟩, above, habove, htext => by
    let t : Tree := ⟨kind, isNamed, field, start, stop, children⟩
    change SameCode src src' t (t.relocate f)
    have hsame := Tree.isComment_relocate f t
    cases hcomment : t.isComment with
    | true => exact .comment hcomment (hsame.trans hcomment)
    | false =>
      have hout : (Focus.mk t above).inComment = false := by
        simp [Focus.inComment, hcomment, habove]
      rw [show Focus.all _ above = _ from Focus.all_eq t above, List.forall_mem_cons] at htext
      by_cases hleaf : t.children = []
      · refine .leaf hsame.symm hleaf ?_ (congrArg Text.trim (htext.1 hleaf hout).symm)
        rw [Tree.children_relocate, hleaf, Tree.relocateAll]
      · refine .inner hsame.symm hleaf ?_ ?_
        · rwa [Tree.children_relocate, ne_eq, Tree.relocateAll_eq_nil_iff]
        · rw [Tree.children_relocate]
          exact sameCodes_relocateAll children 0 t above hout htext.2

/-- Nodes whose leaves keep their texts are the same code at another place. -/
theorem sameCodes_relocateAll {src src' : SourceText} {f : Nat × Nat → Nat × Nat} :
    (ts : List Tree) → (first : Nat) → (t : Tree) → (above : List (Nat × Tree)) →
    (Focus.mk t above).inComment = false →
    (∀ x ∈ Focus.allIn ts first t above, x.node.children = [] → x.inComment = false →
      src'.text (x.node.relocate f) = src.text x.node) →
    SameCodes src src' ts (Tree.relocateAll f ts)
  | [], _, _, _, _, _ => .nil
  | c :: rest, first, t, above, hparent, htext => by
    rw [Focus.allIn, List.forall_mem_append] at htext
    rw [Tree.relocateAll]
    exact .cons (sameCode_relocate c ((first, t) :: above) hparent htext.1)
      (sameCodes_relocateAll rest _ t above hparent htext.2)

end

/-- A source in which the bytes of one gap are replaced. -/
structure Respacing where
  before : ByteArray
  gap : ByteArray
  newGap : ByteArray
  after : ByteArray

namespace Respacing

variable (e : Respacing)

/-- The source with the old gap. -/
def source : SourceText :=
  ⟨e.before ++ e.gap ++ e.after⟩

/-- The source with the new gap. -/
def edited : SourceText :=
  ⟨e.before ++ e.newGap ++ e.after⟩

/-- Where an offset behind the gap comes to be. -/
def shift (offset : Nat) : Nat :=
  offset - e.gap.size + e.newGap.size

/-- Where a range comes to be that does not start or end inside the gap. -/
def range (r : Nat × Nat) : Nat × Nat :=
  if r.2 ≤ e.before.size then r
  else (if e.before.size + e.gap.size ≤ r.1 then e.shift r.1 else r.1, e.shift r.2)

/-- The node ends before the gap or starts behind it. -/
def Spares (t : Tree) : Prop :=
  t.stop ≤ e.before.size ∨ e.before.size + e.gap.size ≤ t.start

instance (t : Tree) : Decidable (e.Spares t) :=
  inferInstanceAs (Decidable (_ ∨ _))

variable {e}

/-- Behind a lead only the offsets in what follows it count. -/
theorem extract_append_of_le {lead rest : ByteArray} {start : Nat} (h : lead.size ≤ start)
    (stop : Nat) :
    (lead ++ rest).extract start stop = rest.extract (start - lead.size) (stop - lead.size) := by
  have hlead : lead.extract start stop = ByteArray.empty :=
    ByteArray.extract_eq_empty_iff.2 (by omega)
  rw [ByteArray.extract_append, hlead, ByteArray.empty_append]

/-- A range that ends in the lead does not see what follows it. -/
theorem extract_append_of_stop_le {lead : ByteArray} {stop : Nat} (h : stop ≤ lead.size)
    (rest : ByteArray) (start : Nat) :
    (lead ++ rest).extract start stop = lead.extract start stop := by
  have hrest : rest.extract (start - lead.size) (stop - lead.size) = ByteArray.empty :=
    ByteArray.extract_eq_empty_iff.2 (by omega)
  rw [ByteArray.extract_append, hrest, ByteArray.append_empty]

theorem text_relocate {t : Tree} (h : e.Spares t) :
    e.edited.text (t.relocate e.range) = e.source.text t := by
  obtain ⟨kind, isNamed, field, start, stop, children⟩ := t
  have hbytes : e.edited.bytes.extract (e.range (start, stop)).1 (e.range (start, stop)).2 =
      e.source.bytes.extract start stop := by
    by_cases hstop : stop ≤ e.before.size
    · simp only [range, if_pos hstop, source, edited, ByteArray.append_assoc,
        extract_append_of_stop_le hstop]
    · have hstart : e.before.size + e.gap.size ≤ start := h.resolve_left hstop
      have hold : (e.before ++ e.gap).size ≤ start := by simpa using hstart
      have hnew : (e.before ++ e.newGap).size ≤ e.shift start := by
        simp only [ByteArray.size_append, shift]
        omega
      -- behind the gap both ends of the range are as far from it as before
      have hends : ∀ p, e.before.size ≤ p → e.shift p - (e.before ++ e.newGap).size =
          p - (e.before ++ e.gap).size := by
        intro p hp
        simp only [ByteArray.size_append, shift]
        omega
      simp only [range, if_neg hstop, if_pos hstart, source, edited]
      rw [extract_append_of_le hold, extract_append_of_le hnew, hends start (by omega),
        hends stop (by omega)]
  simp only [Tree.relocate, SourceText.text, SourceText.text?, hbytes]

end Respacing

/-! ## Digests -/

theorem functionHash_some (src : SourceText) (body : Tree) :
    functionHash src (some body) =
      Digest.Sha256.hexOfText (" ".intercalate (tokensOf src body.leaves)) := by
  rw [tokensOf_leaves]
  rfl

/-- The digest depends on the tokens alone. -/
theorem functionHash_congr {src src' : SourceText} {body body' : Tree}
    (h : tokensOf src body.leaves = tokensOf src' body'.leaves) :
    functionHash src (some body) = functionHash src' (some body') := by
  rw [functionHash_some, functionHash_some, h]

theorem SameCode.tokensOf_eq {src src' : SourceText} {body body' : Tree}
    (h : SameCode src src' body body') :
    tokensOf src body.leaves = tokensOf src' body'.leaves := by
  rw [tokensOf_leaves, tokensOf_leaves, h.bodyTokens_eq]

/-- Respacing leaves the code the same if it spares the leaves outside comments. -/
theorem Respacing.sameCode {e : Respacing} {body : Tree}
    (h : ∀ f ∈ body.leaves, f.inComment = false → e.Spares f.node) :
    SameCode e.source e.edited body (body.relocate e.range) := by
  refine sameCode_relocate body [] rfl fun f hf hleaf hcode => ?_
  exact text_relocate (h f (List.mem_filter.2 ⟨hf, List.isEmpty_iff.2 hleaf⟩) hcode)

/-! ## Edits -/

/-- A comment is put among the children of a node that has others, here or further down. -/
inductive AddsComment : Tree → Tree → Prop
  | here {t t' c : Tree} (before after : List Tree) (hc : c.isComment = true)
      (hsome : t.children ≠ []) (h : t.children = before ++ after)
      (h' : t' = { t with children := before ++ c :: after }) : AddsComment t t'
  | under {t t' u u' : Tree} (before after : List Tree) (hu : AddsComment u u')
      (h : t.children = before ++ u :: after)
      (h' : t' = { t with children := before ++ u' :: after }) : AddsComment t t'

mutual

theorem SameCode.refl (src : SourceText) : (t : Tree) → SameCode src src t t
  | ⟨kind, isNamed, field, start, stop, children⟩ => by
    by_cases hleaf : children = []
    · exact .leaf rfl hleaf hleaf rfl
    · exact .inner rfl hleaf hleaf (SameCodes.refl src children)

theorem SameCodes.refl (src : SourceText) : (ts : List Tree) → SameCodes src src ts ts
  | [] => .nil
  | t :: rest => .cons (SameCode.refl src t) (SameCodes.refl src rest)

end

theorem SameCodes.append_left {src : SourceText} {ts ts' : List Tree}
    (h : SameCodes src src ts ts') (before : List Tree) :
    SameCodes src src (before ++ ts) (before ++ ts') := by
  induction before with
  | nil => exact h
  | cons t before ih => exact .cons (SameCode.refl src t) ih

theorem AddsComment.sameCode {t t' : Tree} (h : AddsComment t t') (src : SourceText) :
    SameCode src src t t' := by
  induction h with
  | here before after hc hsome h h' =>
    subst h'
    refine .inner rfl hsome (by simp) ?_
    rw [h]
    exact (SameCodes.insert hc (SameCodes.refl src after)).append_left before
  | under before after _ h h' ih =>
    subst h'
    refine .inner rfl (by simp [h]) (by simp) ?_
    rw [h]
    exact (SameCodes.cons ih (SameCodes.refl src after)).append_left before

/-- A body in its source. -/
structure Body where
  source : SourceText
  tree : Tree

/-- One edit: a comment is added to the tree, or a gap between the leaves is replaced. -/
inductive Body.Edit : Body → Body → Prop
  | comment {t t' : Tree} (src : SourceText) (h : AddsComment t t') : Edit ⟨src, t⟩ ⟨src, t'⟩
  | space {t : Tree} (e : Respacing) (h : ∀ f ∈ t.leaves, f.inComment = false → e.Spares f.node) :
      Edit ⟨e.source, t⟩ ⟨e.edited, t.relocate e.range⟩

theorem Body.Edit.sameCode {b b' : Body} (h : Edit b b') :
    SameCode b.source b'.source b.tree b'.tree := by
  cases h with
  | comment src h => exact h.sameCode src
  | space e h => exact Respacing.sameCode h

/-- Edits, made or undone, leave the tokens as they are. -/
theorem Body.tokensOf_of_edits {b b' : Body} (h : Relation.EqvGen Edit b b') :
    tokensOf b.source b.tree.leaves = tokensOf b'.source b'.tree.leaves := by
  induction h with
  | rel b b' h => exact h.sameCode.tokensOf_eq
  | refl b => rfl
  | symm b b' _ ih => exact ih.symm
  | trans b b' b'' _ _ ih ih' => exact ih.trans ih'

/-- The digest of a body is that of its leaves outside comments, in document order, trimmed, without
empty ones and with one blank between them, and a reading with a stack collects just these. Bodies
with the same tokens have the same digest, so it does not change when comments are added or taken
away and when the space between leaves changes. -/
theorem hash_reads_code_only :
    (∀ (src : SourceText) (body : Tree),
      (∀ leaves, LeavesInOrder body leaves ↔ leaves = body.leaves) ∧
      (∀ n, body.nodes.length ≤ n →
        Harvest.run src n ⟨[body], []⟩ = ⟨[], tokensOf src body.leaves⟩) ∧
      functionHash src (some body) =
        Digest.Sha256.hexOfText (" ".intercalate (tokensOf src body.leaves))) ∧
    (∀ (src src' : SourceText) (body body' : Tree),
      tokensOf src body.leaves = tokensOf src' body'.leaves →
      functionHash src (some body) = functionHash src' (some body')) ∧
    (∀ (src src' : SourceText) (body body' : Tree), SameCode src src' body body' →
      tokensOf src body.leaves = tokensOf src' body'.leaves ∧
        functionHash src (some body) = functionHash src' (some body')) ∧
    ∀ b b' : Body, Relation.EqvGen Body.Edit b b' →
      tokensOf b.source b.tree.leaves = tokensOf b'.source b'.tree.leaves ∧
        functionHash b.source (some b.tree) = functionHash b'.source (some b'.tree) := by
  refine ⟨fun src body => ⟨fun leaves => leavesInOrder_iff, ?_, functionHash_some src body⟩,
    fun src src' body body' => functionHash_congr, ?_, ?_⟩
  · intro n hn
    have hweight : (Harvest.mk [body] []).weight ≤ n := by simpa [Harvest.weight] using hn
    rw [Harvest.run_eq src hweight, tokensOf_leaves]
    simp [Harvest.answer]
  · intro src src' body body' h
    exact ⟨h.tokensOf_eq, functionHash_congr h.tokensOf_eq⟩
  · intro b b' h
    have htokens := Body.tokensOf_of_edits h
    exact ⟨htokens, functionHash_congr htokens⟩

/-- A token without a name in the grammar. -/
def plainToken (kind : String) (start stop : Nat) : Tree :=
  ⟨kind, false, none, start, stop, []⟩

/-- A sum with its last number at an offset, and with more nodes in front of that. -/
def sumOfTwo (offset : Nat) (more : List Tree) : Tree :=
  ⟨"binary_expression", true, none, 1, offset + 1, plainToken "number" 1 2 :: plainToken "+" 3 4 ::
    more ++ [plainToken "number" offset (offset + 1)]⟩

/-- The sum in brackets. -/
def bracketedSum (offset : Nat) (more : List Tree) : Tree :=
  ⟨"parenthesized_expression", true, some "body", 0, offset + 2,
    [plainToken "(" 0 1, sumOfTwo offset more, plainToken ")" (offset + 1) (offset + 2)]⟩

/-- A comment with leaves of its own. -/
def blockComment : Tree :=
  ⟨"block_comment", true, none, 5, 14, [plainToken "/*" 5 7, plainToken "*/" 12 14]⟩

/-- The text of the comment in the gap before the last number. -/
def remark : Respacing :=
  ⟨"(1 +".toUTF8, " ".toUTF8, " /* all */ ".toUTF8, "2)".toUTF8⟩

/-- A comment that is put into a sum, first its text and then its node. -/
theorem remark_keeps_hash :
    let b : Body := ⟨remark.source, bracketedSum 5 []⟩
    let b' : Body := ⟨remark.edited, bracketedSum 15 [blockComment]⟩
    tokensOf b.source b.tree.leaves = ["(", "1", "+", "2", ")"] ∧
      Relation.EqvGen Body.Edit b b' ∧
      functionHash b.source (some b.tree) = functionHash b'.source (some b'.tree) := by
  intro b b'
  have hspared : ∀ f ∈ (bracketedSum 5 []).leaves, f.inComment = false → remark.Spares f.node := by
    decide +kernel
  have hspace : Body.Edit b ⟨remark.edited, bracketedSum 15 []⟩ := .space remark hspared
  have hsum : AddsComment (sumOfTwo 15 []) (sumOfTwo 15 [blockComment]) :=
    .here [plainToken "number" 1 2, plainToken "+" 3 4] [plainToken "number" 15 16] rfl
      (List.cons_ne_nil _ _) rfl rfl
  have hcomment : Body.Edit ⟨remark.edited, bracketedSum 15 []⟩ b' :=
    .comment remark.edited (.under [plainToken "(" 0 1] [plainToken ")" 16 17] hsum rfl rfl)
  have hedits : Relation.EqvGen Body.Edit b b' := .trans _ _ _ (.rel _ _ hspace) (.rel _ _ hcomment)
  exact ⟨by decide +kernel, hedits, (hash_reads_code_only.2.2.2 b b' hedits).2⟩

end CodeImpact
