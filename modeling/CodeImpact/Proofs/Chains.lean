import CodeImpact.Proofs.CallSites
import Mathlib.Data.List.Nodup

/-!
# Remembered chains

Calls are visited in document order, so a call that lies on the receiver path of another one comes
after it. What is remembered are the chains of exactly the nodes on the receiver paths of the calls
visited so far. A path is therefore remembered from its call on or not at all, and the memory, which
cannot tell an empty chain from a broken one, is never continued from the middle of a path.
-/

open Relation (ReflTransGen)

namespace CodeImpact

/-! ## Chains as they are written -/

/-- The chain with one more step; none if the step cannot be written as a name. -/
def ChainStep.extend? (links : List Link) : ChainStep → Option (List Link)
  | .push role name => some (links ++ [⟨name, role⟩])
  | .pushInvoked name => some (links ++ [⟨name, .function⟩])
  | .skip => some links
  | .stop => none
  | .markInvoked => links.getLast?.map fun last => links.dropLast ++ [⟨last.name, .function⟩]

/-- The chain that steps spell from the leftmost atom up; none as soon as one cannot be written. -/
def readSteps? (steps : List ChainStep) : Option (List Link) :=
  steps.foldlM ChainStep.extend? []

/-- Steps are read one by one, from the leftmost atom on. -/
theorem readSteps?_concat (steps : List ChainStep) (s : ChainStep) :
    readSteps? (steps ++ [s]) = (readSteps? steps).bind (ChainStep.extend? · s) := by
  simp [readSteps?, List.foldlM_append]

namespace Walk

/-- The chain of a walk, unless it is broken. -/
def links? (w : Walk) : Option (List Link) :=
  if w.broken then none else some w.links

/-- A step extends what the walk spells, and a broken walk spells nothing. -/
theorem links?_step (w : Walk) (s : ChainStep) :
    (w.step s).links? = w.links?.bind (ChainStep.extend? · s) := by
  obtain ⟨links, broken⟩ := w
  cases broken with
  | true => rfl
  | false =>
    cases s with
    | markInvoked =>
      cases hlast : links.getLast? <;> simp [step, links?, stuck, ChainStep.extend?, hlast]
    | _ => rfl

theorem broken_step {w : Walk} (s : ChainStep) (h : w.broken = true) :
    (w.step s).broken = true := by
  simp [step, h, stuck]

/-- A broken walk has lost its chain. -/
theorem links_step (w : Walk) (s : ChainStep) (h : w.broken = true → w.links = []) :
    (w.step s).broken = true → (w.step s).links = [] := by
  obtain ⟨links, broken⟩ := w
  cases broken with
  | true => exact fun _ => rfl
  | false =>
    cases s with
    | markInvoked => cases hlast : links.getLast? <;> simp [step, stuck, hlast]
    | stop => exact fun _ => rfl
    | _ => simp [step]

end Walk

namespace Grammar

variable {g : Grammar} {src : SourceText}

/-- The walk up a path is broken if its steps spell nothing, and else has the chain they spell. -/
theorem links?_foldr (nodes : List Tree) :
    (nodes.foldr (fun n w => w.step (g.step src n)) Walk.start).links? =
      readSteps? (nodes.reverse.map (g.step src)) := by
  induction nodes with
  | nil => rfl
  | cons n rest ih =>
    rw [List.foldr_cons, Walk.links?_step, ih, List.reverse_cons, List.map_append,
      List.map_singleton, readSteps?_concat]

/-- A broken walk has no links. -/
theorem links_foldr_of_broken (nodes : List Tree)
    (h : (nodes.foldr (fun n w => w.step (g.step src n)) Walk.start).broken = true) :
    (nodes.foldr (fun n w => w.step (g.step src n)) Walk.start).links = [] := by
  induction nodes with
  | nil => rfl
  | cons n rest ih => exact Walk.links_step _ _ ih h

/-- The walk up a path has the chain its steps spell, or an empty one. -/
theorem links_foldr (nodes : List Tree) :
    (nodes.foldr (fun n w => w.step (g.step src n)) Walk.start).links =
      (readSteps? (nodes.reverse.map (g.step src))).getD [] := by
  rw [← links?_foldr, Walk.links?]
  split
  next hbroken => exact links_foldr_of_broken _ hbroken
  next => rfl

/-- The chain of a node is what the steps of its receiver path spell, or empty. -/
theorem chain_eq (g : Grammar) (src : SourceText) (t : Tree) :
    g.chain src t =
      (readSteps? ((receiverPath g.receiver t).reverse.map (g.step src))).getD [] :=
  links_foldr _

/-- The receiver path of a node spells a chain. -/
def Readable (g : Grammar) (src : SourceText) (t : Tree) : Prop :=
  readSteps? ((receiverPath g.receiver t).reverse.map (g.step src)) ≠ none

instance (g : Grammar) (src : SourceText) (t : Tree) : Decidable (g.Readable src t) :=
  inferInstanceAs (Decidable (_ ≠ _))

theorem readable_iff {t : Tree} : g.Readable src t ↔ (g.walk src t).broken = false := by
  rw [Readable, ← links?_foldr, ← walk, Walk.links?]
  cases (g.walk src t).broken <;> simp

/-! ## Receiver paths in their tree -/

/-- The second focus is the receiver of the first. -/
def IsReceiver (g : Grammar) (x y : Focus) : Prop :=
  x.IsChild y ∧ (g.receiver x.node.kind).bind (·.pick x.node) = some y.node

/-- The second focus is on the receiver path of the first. -/
def OnPath (g : Grammar) : Focus → Focus → Prop :=
  ReflTransGen g.IsReceiver

theorem OnPath.reaches {x y : Focus} (h : g.OnPath x y) : ReflTransGen Focus.IsChild x y :=
  ReflTransGen.mono (fun _ _ hreceiver => hreceiver.1) _ _ h

/-- A receiver is a child, at some number. -/
theorem exists_isReceiver {t c : Tree} (above : List (Nat × Tree))
    (h : (g.receiver t.kind).bind (·.pick t) = some c) :
    ∃ i, g.IsReceiver ⟨t, above⟩ ⟨c, (i, t) :: above⟩ := by
  obtain ⟨s, -, hs⟩ := Option.bind_eq_some_iff.1 h
  obtain ⟨i, hi⟩ := List.mem_iff_getElem?.1 (Selector.mem_children_of_pick hs)
  exact ⟨i, .intro hi, h⟩

theorem receiverPath_of_some {t c : Tree} (h : (g.receiver t.kind).bind (·.pick t) = some c) :
    receiverPath g.receiver t = t :: receiverPath g.receiver c := by
  rw [receiverPath]
  split
  next c' h' => rw [Option.some.inj (h.symm.trans h')]
  next h' => exact absurd (h.symm.trans h') (by simp)

theorem receiverPath_of_none {t : Tree} (h : (g.receiver t.kind).bind (·.pick t) = none) :
    receiverPath g.receiver t = [t] := by
  rw [receiverPath]
  split
  next c' h' => exact absurd (h.symm.trans h') (by simp)
  next => rfl

/-- The walk of a node is that of its receiver with one step more. -/
theorem walk_of_some {t c : Tree} (h : (g.receiver t.kind).bind (·.pick t) = some c) :
    g.walk src t = (g.walk src c).step (g.step src t) := by
  rw [walk, walk, receiverPath_of_some h, List.foldr_cons]

/-- What is on the receiver path of a node that can be read can be read. -/
theorem OnPath.readable {x y : Focus} (h : g.OnPath x y) (hx : g.Readable src x.node) :
    g.Readable src y.node := by
  induction h with
  | refl => exact hx
  | @tail y z _ hreceiver ih =>
    rw [readable_iff, walk_of_some hreceiver.2] at ih
    rw [readable_iff, ← Bool.not_eq_true]
    intro hbroken
    rw [Walk.broken_step _ hbroken] at ih
    cases ih

/-- A node between two nodes of a receiver path is on that path. -/
theorem OnPath.between {x y z : Focus} (h : g.OnPath x z) (hxy : ReflTransGen Focus.IsChild x y)
    (hyz : ReflTransGen Focus.IsChild y z) : g.OnPath x y := by
  induction h with
  | refl =>
    rw [Focus.eq_of_reaches hxy hyz]
    exact .refl
  | tail hpath hreceiver ih =>
    cases hyz with
    | refl => exact hpath.tail hreceiver
    | tail hreach hchild =>
      rw [hchild.parent_unique hreceiver.1] at hreach
      exact ih hreach

end Grammar

/-! ## What is remembered -/

namespace ParsedFile

variable {f : ParsedFile}

/-- Different nodes of the file have different identifiers. -/
def Identified (f : ParsedFile) : Prop :=
  ∀ x y : Focus, x.Occurs f.tree → y.Occurs f.tree →
    x.node.id f.absolutePath = y.node.id f.absolutePath → x = y

/-- What is remembered are the chains of the nodes on the receiver paths of these calls. -/
structure Remembers (f : ParsedFile) (calls : List Focus) (memo : ChainMemo) : Prop where
  occurs : ∀ c ∈ calls, c.Occurs f.tree
  get_iff : ∀ id links, memo[id]? = some links ↔
    ∃ c ∈ calls, ∃ x, f.grammar.OnPath c x ∧ x.node.id f.absolutePath = id ∧
      f.grammar.chain f.source x.node = links

theorem remembers_nil : f.Remembers [] {} where
  occurs := by simp
  get_iff := by simp

/-- The paths of the calls and of one more are remembered once the nodes on its path are. -/
theorem Remembers.concat {calls : List Focus} {memo memo' : ChainMemo} (h : f.Remembers calls memo)
    {c : Focus} (hc : c.Occurs f.tree)
    (hmemo : ∀ id links, memo'[id]? = some links ↔ memo[id]? = some links ∨
      ∃ x, f.grammar.OnPath c x ∧ x.node.id f.absolutePath = id ∧
        f.grammar.chain f.source x.node = links) : f.Remembers (calls ++ [c]) memo' where
  occurs := by
    intro e he
    obtain he | he := List.mem_append.1 he
    · exact h.occurs e he
    · exact List.mem_singleton.1 he ▸ hc
  get_iff id links := by
    rw [hmemo, h.get_iff]
    constructor
    · rintro (⟨e, he, hpath⟩ | hpath)
      · exact ⟨e, List.mem_append_left _ he, hpath⟩
      · exact ⟨c, List.mem_append_right _ (List.mem_singleton_self c), hpath⟩
    · rintro ⟨e, he, hpath⟩
      obtain he | he := List.mem_append.1 he
      · exact .inl ⟨e, he, hpath⟩
      · rw [List.mem_singleton.1 he] at hpath
        exact .inr hpath

/-- In a file with distinct identifiers a node has one receiver at most. -/
theorem Identified.receiver_unique (hids : f.Identified) {x y y' : Focus} (hx : x.Occurs f.tree)
    (hy : f.grammar.IsReceiver x y) (hy' : f.grammar.IsReceiver x y') : y = y' := by
  refine hids y y' (hx.tail hy.1) (hx.tail hy'.1) ?_
  rw [Option.some.inj (hy.2.symm.trans hy'.2)]

/-- Once the chains of all nodes below a call on its path are remembered, so are those of all nodes
on the path when the chain of the call is inserted. -/
theorem insert_chain (hids : f.Identified) {c : Focus} (hc : c.Occurs f.tree)
    {memo below : ChainMemo} (hself : memo[c.node.id f.absolutePath]? = none)
    (hbelow : ∀ id links, below[id]? = some links ↔ memo[id]? = some links ∨
      ∃ y, f.grammar.IsReceiver c y ∧ ∃ x, f.grammar.OnPath y x ∧
        x.node.id f.absolutePath = id ∧ f.grammar.chain f.source x.node = links)
    (id : String) (links : List Link) :
    (below.insert (c.node.id f.absolutePath) (f.grammar.chain f.source c.node))[id]? = some links ↔
      memo[id]? = some links ∨ ∃ x, f.grammar.OnPath c x ∧ x.node.id f.absolutePath = id ∧
        f.grammar.chain f.source x.node = links := by
  rw [Std.HashMap.getElem?_insert]
  by_cases hid : c.node.id f.absolutePath = id
  · subst hid
    simp only [beq_self_eq_true, if_true, Option.some.injEq, hself, reduceCtorEq, false_or]
    constructor
    · intro hlinks
      exact ⟨c, .refl, rfl, hlinks⟩
    · rintro ⟨x, hx, hxid, rfl⟩
      rw [hids x c (hc.trans hx.reaches) hc hxid]
  · have hne : (c.node.id f.absolutePath == id) = false := by simpa using hid
    rw [hne, if_neg Bool.false_ne_true, hbelow]
    refine or_congr_right ⟨?_, ?_⟩
    · rintro ⟨y, hy, x, hx, hxid, hlinks⟩
      exact ⟨x, hx.head hy, hxid, hlinks⟩
    · rintro ⟨x, hx, rfl, hlinks⟩
      obtain rfl | ⟨y, hy, hx⟩ := ReflTransGen.cases_head hx
      · exact absurd rfl hid
      · exact ⟨y, hy, x, hx, rfl, hlinks⟩

/-- A chain that is remembered is taken as an unbroken walk. -/
theorem recallWalk_of_hit {g : Grammar} {src : SourceText} {path : String} {t : Tree}
    {memo : ChainMemo} {links : List Link} (h : memo[t.id path]? = some links) :
    g.recallWalk src path (receiverPath g.receiver t) memo = (⟨links, false⟩, memo) := by
  cases hpick : (g.receiver t.kind).bind (·.pick t) with
  | some c => simp only [Grammar.receiverPath_of_some hpick, Grammar.recallWalk, h]
  | none => simp only [Grammar.receiverPath_of_none hpick, Grammar.recallWalk, h]

/-- A path that is remembered from its first node on is not walked again. -/
theorem recallWalk_of_remembered (x : Focus) {memo : ChainMemo} {links : List Link}
    (hself : memo[x.node.id f.absolutePath]? = some links)
    (hwalk : f.grammar.walk f.source x.node = ⟨links, false⟩)
    (hpath : ∀ y, f.grammar.OnPath x y →
      memo[y.node.id f.absolutePath]? = some (f.grammar.chain f.source y.node)) :
    (f.grammar.recallWalk f.source f.absolutePath (receiverPath f.grammar.receiver x.node)
        memo).1 = f.grammar.walk f.source x.node ∧
    ∀ id links, (f.grammar.recallWalk f.source f.absolutePath
        (receiverPath f.grammar.receiver x.node) memo).2[id]? = some links ↔
      memo[id]? = some links ∨ ∃ y, f.grammar.OnPath x y ∧
        y.node.id f.absolutePath = id ∧ f.grammar.chain f.source y.node = links := by
  rw [recallWalk_of_hit hself]
  refine ⟨hwalk.symm, fun id links => ⟨.inl, ?_⟩⟩
  rintro (hold | ⟨y, hy, rfl, rfl⟩)
  · exact hold
  · exact hpath y hy

/-- If what is remembered of a path are unbroken walks with all that is below them, the path is
walked as without a memory, and the chains of its nodes are remembered in addition. -/
theorem recallWalk_of_unbroken (hids : f.Identified) {t : Tree} {above : List (Nat × Tree)}
    (hc : Focus.Occurs f.tree ⟨t, above⟩) {memo : ChainMemo}
    (hhit : ∀ x links, f.grammar.OnPath ⟨t, above⟩ x →
      memo[x.node.id f.absolutePath]? = some links →
      f.grammar.walk f.source x.node = ⟨links, false⟩ ∧ ∀ y, f.grammar.OnPath x y →
        memo[y.node.id f.absolutePath]? = some (f.grammar.chain f.source y.node)) :
    (f.grammar.recallWalk f.source f.absolutePath (receiverPath f.grammar.receiver t) memo).1 =
      f.grammar.walk f.source t ∧
    ∀ id links, (f.grammar.recallWalk f.source f.absolutePath
        (receiverPath f.grammar.receiver t) memo).2[id]? = some links ↔
      memo[id]? = some links ∨ ∃ x, f.grammar.OnPath ⟨t, above⟩ x ∧
        x.node.id f.absolutePath = id ∧ f.grammar.chain f.source x.node = links := by
  induction t using receiverPath.induct f.grammar.receiver generalizing above with
  | case1 t c hpick ih =>
    cases hself : memo[t.id f.absolutePath]? with
    | some links =>
      obtain ⟨hwalk, hpath⟩ := hhit ⟨t, above⟩ links .refl hself
      exact recallWalk_of_remembered ⟨t, above⟩ hself hwalk hpath
    | none =>
      obtain ⟨i, hreceiver⟩ := Grammar.exists_isReceiver above hpick
      obtain ⟨hwalk, hbelow⟩ := ih (hc.tail hreceiver.1) fun x links hx =>
        hhit x links (hx.head hreceiver)
      rw [Grammar.receiverPath_of_some hpick]
      simp only [Grammar.recallWalk, hself, hwalk, ← Grammar.walk_of_some hpick, true_and]
      refine insert_chain hids hc hself fun id links =>
        (hbelow id links).trans (or_congr_right ?_)
      constructor
      · intro h
        exact ⟨_, hreceiver, h⟩
      · rintro ⟨y, hy, h⟩
        rwa [hids.receiver_unique hc hreceiver hy]
  | case2 t hpick =>
    cases hself : memo[t.id f.absolutePath]? with
    | some links =>
      obtain ⟨hwalk, hpath⟩ := hhit ⟨t, above⟩ links .refl hself
      exact recallWalk_of_remembered ⟨t, above⟩ hself hwalk hpath
    | none =>
      have hstep : Walk.start.step (f.grammar.step f.source t) = f.grammar.walk f.source t := by
        rw [Grammar.walk, Grammar.receiverPath_of_none hpick, List.foldr_cons, List.foldr_nil]
      rw [Grammar.receiverPath_of_none hpick]
      simp only [Grammar.recallWalk, hself, hstep, true_and]
      refine insert_chain hids hc hself fun id links => ?_
      constructor
      · exact .inl
      · rintro (h | ⟨y, hy, -⟩)
        · exact h
        · exact absurd (hpick.symm.trans hy.2) (by simp)

/-- A call that is not remembered itself finds remembered only what earlier calls on its path
left. -/
theorem exists_earlier_of_miss (hids : f.Identified) {calls : List Focus} {memo : ChainMemo}
    (h : f.Remembers calls memo) {c : Focus} (hc : c.Occurs f.tree)
    (hmiss : memo[c.node.id f.absolutePath]? = none) {x : Focus} (hx : f.grammar.OnPath c x)
    {links : List Link} (hlinks : memo[x.node.id f.absolutePath]? = some links) :
    ∃ e ∈ calls, f.grammar.OnPath c e ∧ f.grammar.OnPath e x ∧
      f.grammar.chain f.source x.node = links := by
  obtain ⟨e, he, y, hy, hid, hchain⟩ := (h.get_iff _ links).1 hlinks
  obtain rfl := hids y x ((h.occurs e he).trans hy.reaches) (hc.trans hx.reaches) hid
  -- Both calls are around `y`. If the earlier one is around the later one, the later one is on its
  -- path and would be remembered.
  obtain hec | hce := Focus.reaches_total hy.reaches hx.reaches
  · have hhit := (h.get_iff (c.node.id f.absolutePath) _).2
      ⟨e, he, c, hy.between hec hx.reaches, rfl, rfl⟩
    rw [hmiss] at hhit
    cases hhit
  · exact ⟨e, he, hx.between hce hy.reaches, hy, hchain⟩

/-- After the earlier calls, a call is remembered, or those on its path can be read. -/
def Resumes (f : ParsedFile) (earlier : List Focus) (c : Focus) : Prop :=
  (∃ d ∈ earlier, f.grammar.OnPath d c) ∨
    ∀ e ∈ earlier, f.grammar.OnPath c e → f.grammar.Readable f.source e.node

/-- The chain of the next call is as without a memory, and its path is remembered from now on. -/
theorem recallChain_eq (hids : f.Identified) {calls : List Focus} {memo : ChainMemo}
    (h : f.Remembers calls memo) {c : Focus} (hc : c.Occurs f.tree)
    (hresumes : f.Resumes calls c) :
    (f.grammar.recallChain f.source f.absolutePath c.node memo).1 =
        f.grammar.chain f.source c.node ∧
      f.Remembers (calls ++ [c])
        (f.grammar.recallChain f.source f.absolutePath c.node memo).2 := by
  unfold Grammar.recallChain
  cases hget : memo[c.node.id f.absolutePath]? with
  | some links =>
    obtain ⟨e, he, y, hy, hid, rfl⟩ := (h.get_iff _ links).1 hget
    obtain rfl := hids y c ((h.occurs e he).trans hy.reaches) hc hid
    rw [recallWalk_of_hit hget]
    refine ⟨rfl, h.concat hc fun id links => ⟨.inl, ?_⟩⟩
    rintro (hold | ⟨x, hx, hpath⟩)
    · exact hold
    · exact (h.get_iff id links).2 ⟨e, he, x, hy.trans hx, hpath⟩
  | none =>
    obtain ⟨d, hd, hon⟩ | hreadable := hresumes
    · have hhit := (h.get_iff (c.node.id f.absolutePath) _).2 ⟨d, hd, c, hon, rfl, rfl⟩
      rw [hget] at hhit
      cases hhit
    · obtain ⟨hwalk, hmemo⟩ := recallWalk_of_unbroken hids hc fun x links hx hlinks => by
        obtain ⟨e, he, hce, hex, rfl⟩ := exists_earlier_of_miss hids h hc hget hx hlinks
        have hunbroken := Grammar.readable_iff.1 (hex.readable (hreadable e he hce))
        refine ⟨congrArg (Walk.mk _) hunbroken, fun y hy => ?_⟩
        exact (h.get_iff _ _).2 ⟨e, he, y, hex.trans hy, rfl, rfl⟩
      exact ⟨congrArg Walk.links hwalk, h.concat hc hmemo⟩

/-- The calls among nodes in document order are read as without a memory. -/
theorem callSites_of_remembers (hids : f.Identified) {nodes calls : List Focus} {memo : ChainMemo}
    (h : f.Remembers calls memo) (hnodes : ∀ x ∈ nodes, x.Occurs f.tree)
    (horder : nodes.Pairwise fun x y => ¬ ReflTransGen Focus.IsChild y x)
    (hlater : ∀ x ∈ nodes, ∀ c ∈ calls, ¬ ReflTransGen Focus.IsChild x c)
    (scope : Focus → Scope) :
    f.callSites (nodes.map fun x => (x, scope x)) memo =
      (nodes.filter fun x => f.grammar.isCall x.node).map fun x =>
        (x.node, scope x, f.grammar.chain f.source x.node) := by
  induction nodes generalizing calls memo with
  | nil => rfl
  | cons c rest ih =>
    obtain ⟨hc, hrest⟩ := List.forall_mem_cons.1 hnodes
    obtain ⟨hfirst, horder⟩ := List.pairwise_cons.1 horder
    obtain ⟨hclater, hlater⟩ := List.forall_mem_cons.1 hlater
    rw [List.map_cons, callSites]
    cases hcall : f.grammar.isCall c.node with
    | false =>
      rw [if_neg Bool.false_ne_true, List.filter_cons_of_neg (by simp [hcall])]
      exact ih h hrest horder hlater
    | true =>
      obtain ⟨hchain, hmemo⟩ := recallChain_eq hids h hc <| .inr fun e he hon =>
        absurd hon.reaches (hclater e he)
      have hlater' : ∀ x ∈ rest, ∀ e ∈ calls ++ [c], ¬ ReflTransGen Focus.IsChild x e := by
        intro x hx e he
        obtain he | he := List.mem_append.1 he
        · exact hlater x hx e he
        · exact List.mem_singleton.1 he ▸ hfirst x hx
      rw [if_pos rfl, List.filter_cons_of_pos (by simp [hcall]), List.map_cons, ← hchain,
        ← ih hmemo hrest horder hlater']

/-- Scopes and chains are those of the file without any memory: the frames of the ancestors pushed
one after the other, and what the steps of the receiver path spell, or nothing if one cannot be
written. -/
theorem extraction_without_memory (f : ParsedFile) (hids : f.Identified) :
    f.scopedNodes = f.tree.namedNodes.map (fun x => (x, f.grammar.scopeOf f.source x)) ∧
    f.callSites f.scopedNodes {} =
      (f.tree.namedNodes.filter fun x => f.grammar.isCall x.node).map (fun x =>
        (x.node, f.grammar.scopeOf f.source x,
          (readSteps? ((receiverPath f.grammar.receiver x.node).reverse.map
            (f.grammar.step f.source))).getD [])) ∧
    f.extract.calls =
      (f.tree.namedNodes.filter fun x => f.grammar.isCall x.node).filterMap fun x =>
        f.callRecord? f.bindings x.node (f.grammar.scopeOf f.source x)
          (f.grammar.chain f.source x.node) := by
  have hnodes : ∀ x ∈ f.tree.namedNodes, x.Occurs f.tree :=
    fun x hx => (Focus.mem_namedNodes.1 hx).2
  have hsites := callSites_of_remembers hids remembers_nil hnodes
    (Focus.pairwise_namedNodes f.tree) (by simp) (f.grammar.scopeOf f.source)
  rw [← f.scopedNodes_eq] at hsites
  refine ⟨f.scopedNodes_eq, ?_, ?_⟩
  · simp only [hsites, Grammar.chain_eq]
  · have hcalls : f.extract.calls = (f.ownedCalls f.bindings f.scopedNodes).map (·.record) := rfl
    rw [hcalls, ownedCalls, hsites, List.map_filterMap, List.filterMap_map]
    simp [Function.comp_def]

/-- The node and all nodes under it are named. -/
inductive FullyNamed : Tree → Prop
  | intro {t : Tree} (hself : t.named = true) (hchildren : ∀ c ∈ t.children, FullyNamed c) :
      FullyNamed t

/-- If every node is named, all nodes are visited. -/
theorem FullyNamed.mem_namedNodes {root : Tree} (h : FullyNamed root) {x : Focus}
    (hx : x.Occurs root) : x ∈ root.namedNodes := by
  have hnode : FullyNamed x.node := by
    induction hx with
    | refl => exact h
    | tail _ hchild ih =>
      cases hchild with
      | intro hget =>
        cases ih with
        | intro _ hchildren => exact hchildren _ (List.mem_of_getElem? hget)
  cases hnode with
  | intro hself _ => exact Focus.mem_namedNodes.2 ⟨hself, hx⟩

/-- A call of the method whose name has one letter, at `place`. -/
def invocation (field : Option String) (object : Tree) (place : Nat) : Tree :=
  ⟨"method_invocation", true, field, object.start, place + 3,
    [object, ⟨"identifier", true, some "name", place, place + 1, []⟩]⟩

theorem fullyNamed_invocation {field : Option String} {object : Tree} {place : Nat}
    (h : FullyNamed object) : FullyNamed (invocation field object place) := by
  refine .intro rfl fun c hc => ?_
  obtain rfl | hc := List.mem_cons.1 hc
  · exact h
  · obtain rfl := List.mem_singleton.1 hc
    exact .intro rfl (by simp)

/-- A call whose receiver is a call. -/
def nestedCall : ParsedFile where
  grammar := .java
  source := ⟨"a.b().c()".toUTF8⟩
  tree := invocation none
    (invocation (some "object") ⟨"identifier", true, some "object", 0, 1, []⟩ 2) 6
  path := "A.java"
  absolutePath := "/r/A.java"
  resolve := ⟨fun origin _ => ⟨origin, true⟩⟩

/-- A tree of named nodes is identified if the identifiers of its named nodes differ. -/
theorem identified_of_nodup (hnamed : FullyNamed f.tree)
    (hdistinct : (f.tree.namedNodes.map fun x => x.node.id f.absolutePath).Nodup) :
    f.Identified := by
  intro x y hx hy hid
  exact List.inj_on_of_nodup_map hdistinct (hnamed.mem_namedNodes hx) (hnamed.mem_namedNodes hy) hid

theorem identified_nestedCall : nestedCall.Identified := by
  refine identified_of_nodup ?_ (by decide +kernel)
  exact fullyNamed_invocation (fullyNamed_invocation (.intro rfl (by simp)))

theorem nestedCall_read_without_memory : nestedCall.Identified ∧
    (nestedCall.callSites nestedCall.scopedNodes {}).map (·.2.2) =
      [[⟨"a", .member⟩, ⟨"b", .function⟩, ⟨"c", .function⟩],
        [⟨"a", .member⟩, ⟨"b", .function⟩]] := by
  refine ⟨identified_nestedCall, ?_⟩
  rw [(extraction_without_memory nestedCall identified_nestedCall).2.1]
  decide +kernel

end ParsedFile

end CodeImpact
