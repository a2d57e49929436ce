import CodeImpact.Proofs.JsonTokens
import Mathlib.Data.List.Basic
import Mathlib.Data.List.TakeWhile

/-!
# Reading back written values

The tokens of a value put it together again wherever a value may stand, so a value is read back from
each of its layouts. The lists and objects that are open around it count against the depth limit.
-/

namespace CodeImpact.Json

/-! ## Numbers -/

theorem head?_toDigits {n : Nat} (h : 0 < n) : (Nat.toDigits 10 n).head? ≠ some '0' := by
  induction n using Nat.strongRecOn with
  | _ n ih =>
    rcases Nat.lt_or_ge n 10 with hlt | hge
    · have hdigit : ∀ d < 10, 0 < d → [d.digitChar].head? ≠ some '0' := by decide
      rw [Nat.toDigits_of_lt_base hlt]
      exact hdigit n hlt h
    · -- The first digit is that of the tenth part.
      have hdiv : 0 < n / 10 := Nat.div_pos hge (by decide)
      have hfirst := ih (n / 10) (Nat.div_lt_self h (by decide)) hdiv
      rw [Nat.toDigits_of_base_le (by decide) hge,
        List.head?_append_of_ne_nil _ Nat.toDigits_ne_nil]
      exact hfirst

theorem isWhole_toDigits (n : Nat) : isWhole (Nat.toDigits 10 n) = true := by
  rcases Nat.eq_zero_or_pos n with rfl | hpos
  · decide
  · simp [isWhole, Text.all_isDigit_toDigits n, head?_toDigits hpos]

theorem number?_toDigits {n : Nat} (h : n < Text.wordBound) :
    number? (Nat.toDigits 10 n) = some (nat n) := by
  have hdigits : ∀ c ∈ Nat.toDigits 10 n, c.isDigit = true :=
    List.all_eq_true.1 (Text.all_isDigit_toDigits n)
  have hsign : (Nat.toDigits 10 n).head? ≠ some '-' := fun hhead =>
    absurd (hdigits '-' (List.mem_of_mem_head? hhead)) (by decide)
  have htake : (Nat.toDigits 10 n).takeWhile Char.isDigit = Nat.toDigits 10 n :=
    List.takeWhile_eq_self_iff.2 hdigits
  have hdrop : (Nat.toDigits 10 n).dropWhile Char.isDigit = [] :=
    List.dropWhile_eq_nil_iff.2 hdigits
  simp [number?, hsign, htake, hdrop, isWhole_toDigits, Text.decimal?_toDigits, h, nat]

theorem scalar?_repr {n : Nat} (h : n < Text.wordBound) :
    scalar? (n : Int).repr.toList = some (nat n) := by
  have hword : ∀ word : List Char, word.all Char.isDigit = false → Nat.toDigits 10 n ≠ word := by
    rintro _ hword rfl
    exact Bool.eq_false_iff.1 hword (Text.all_isDigit_toDigits n)
  rw [toList_repr_natCast, scalar?, if_neg (hword _ (by decide)), if_neg (hword _ (by decide)),
    if_neg (hword _ (by decide)), number?_toDigits h]

/-! ## Values -/

namespace Builder

/-- The value that tokens complete from a state on. -/
def run (b : Builder) (ts : List Token) : Option Json :=
  (ts.foldlM step b).bind finish

@[simp] theorem run_nil (b : Builder) : b.run [] = b.finish := rfl

theorem run_cons (b : Builder) (t : Token) (ts : List Token) :
    b.run (t :: ts) = (b.step t).bind (·.run ts) := by
  simp only [run, List.foldlM_cons, Option.bind_eq_bind, Option.bind_assoc]

/-- Tokens that hand a value to what is open, where `depth` more levels may be opened. -/
def Hands (depth : Nat) (ts : List Token) (v : Json) : Prop :=
  ∀ pending rest, pending.length + depth ≤ depthLimit →
    run ⟨pending, .value⟩ (ts ++ rest) = (deliver v pending).bind (·.run rest)

variable {depth : Nat}

theorem hands_text (s : String) : Hands depth [.text s.toList] (.str s) := by
  intro pending rest _
  rw [List.singleton_append, run_cons]
  simp only [step, startValue, String.ofList_toList]

theorem hands_word {word : List Char} {v : Json} (h : scalar? word = some v) :
    Hands depth [.word word] v := by
  intro pending rest _
  rw [List.singleton_append, run_cons]
  simp only [step, startValue, h, Option.bind_some]

/-! ### Lists -/

theorem itemTokens_singleton (v : Json) (rest : List Token) :
    itemTokens [v] ++ rest = v.tokens ++ .closeList :: rest := by
  rw [itemTokens, List.append_assoc, List.singleton_append]

theorem itemTokens_cons (v w : Json) (items : List Json) (rest : List Token) :
    itemTokens (v :: w :: items) ++ rest =
      v.tokens ++ .comma :: (itemTokens (w :: items) ++ rest) := by
  rw [itemTokens, List.append_assoc, List.cons_append]
  exact List.cons_ne_nil w items

/-- A run over the items of a list, before its closing bracket. -/
theorem run_items {items : List Json} (hne : items ≠ []) (h : ∀ v ∈ items, Hands depth v.tokens v)
    {pending : List Pending} (hdepth : pending.length + (depth + 1) ≤ depthLimit)
    (before : List Json) (rest : List Token) :
    run ⟨.list before :: pending, .value⟩ (itemTokens items ++ rest) =
      (deliver (.arr (before.reverse ++ items)) pending).bind (·.run rest) := by
  have hroom : ∀ p : Pending, (p :: pending).length + depth ≤ depthLimit := by
    intro p
    rw [List.length_cons]
    omega
  induction items generalizing before with
  | nil => exact absurd rfl hne
  | cons v items ih =>
    obtain ⟨hv, hitems⟩ := List.forall_mem_cons.1 h
    cases items with
    | nil =>
      rw [itemTokens_singleton, hv _ _ (hroom _), deliver, Option.bind_some, run_cons]
      simp only [step, leave, List.reverse_cons]
    | cons w items =>
      rw [itemTokens_cons, hv _ _ (hroom _), deliver, Option.bind_some, run_cons]
      simp only [step, Option.bind_some]
      rw [ih (List.cons_ne_nil w items) hitems (v :: before)]
      simp

/-- No value starts with the end of a list or an object. -/
theorem tokens_eq_cons (v : Json) :
    ∃ t ts, v.tokens = t :: ts ∧ ∀ pending, leave pending t = none := by
  have hleave : ∀ t, t ≠ .closeList → t ≠ .closeObject → ∀ pending, leave pending t = none := by
    intro t hlist hobject pending
    unfold leave
    split <;> trivial
  cases v with
  | bool b => cases b <;> exact ⟨_, _, rfl, hleave _ nofun nofun⟩
  | _ => exact ⟨_, _, rfl, hleave _ nofun nofun⟩

theorem run_firstItem (pending : List Pending) (v : Json) (rest : List Token) :
    run ⟨pending, .firstItem⟩ (v.tokens ++ rest) = run ⟨pending, .value⟩ (v.tokens ++ rest) := by
  obtain ⟨t, ts, htokens, hleave⟩ := tokens_eq_cons v
  rw [htokens, List.cons_append, run_cons, run_cons]
  simp only [step, hleave, Option.none_or]

/-- A list is read back if its items are, one level deeper. -/
theorem hands_arr {items : List Json} (h : ∀ v ∈ items, Hands depth v.tokens v) :
    Hands (depth + 1) (Json.arr items).tokens (.arr items) := by
  intro pending rest hdepth
  have henter : enter pending (.list []) .firstItem = some ⟨.list [] :: pending, .firstItem⟩ :=
    if_pos (by omega)
  rw [tokens, List.cons_append, run_cons]
  simp only [step, startValue, henter, Option.bind_some]
  cases items with
  | nil =>
    rw [itemTokens, List.singleton_append, run_cons]
    simp only [step, leave, startValue, Option.or_none, List.reverse_nil]
  | cons v items =>
    have hfirst : run ⟨.list [] :: pending, .firstItem⟩ (itemTokens (v :: items) ++ rest) =
        run ⟨.list [] :: pending, .value⟩ (itemTokens (v :: items) ++ rest) := by
      cases items with
      | nil => rw [itemTokens_singleton, run_firstItem]
      | cons w items => rw [itemTokens_cons, run_firstItem]
    rw [hfirst, run_items (List.cons_ne_nil v items) h hdepth, List.reverse_nil, List.nil_append]

/-! ### Objects -/

/-- A field is handed over with its value. -/
theorem run_field {v : Json} (h : Hands depth v.tokens v) {pending : List Pending}
    (hdepth : pending.length + (depth + 1) ≤ depthLimit) (before : List (String × Json))
    (name : String) (rest : List Token) :
    run ⟨.object before :: pending, .field⟩ (.text name.toList :: .colon :: v.tokens ++ rest) =
      run ⟨.object ((name, v) :: before) :: pending, .after⟩ rest := by
  have hroom : (Pending.field before name :: pending).length + depth ≤ depthLimit := by
    rw [List.length_cons]
    omega
  rw [List.cons_append, List.cons_append, run_cons]
  simp only [step, startField, Option.bind_some, run_cons, String.ofList_toList]
  rw [h _ _ hroom, deliver, Option.bind_some]

/-- A run over the fields of an object, before its closing brace. -/
theorem run_fields {fields : List (String × Json)} (hne : fields ≠ [])
    (h : ∀ f ∈ fields, Hands depth f.2.tokens f.2) {pending : List Pending}
    (hdepth : pending.length + (depth + 1) ≤ depthLimit) (before : List (String × Json))
    (rest : List Token) :
    run ⟨.object before :: pending, .field⟩ (fieldTokens fields ++ rest) =
      (deliver (.obj (before.reverse ++ fields)) pending).bind (·.run rest) := by
  induction fields generalizing before with
  | nil => exact absurd rfl hne
  | cons f fields ih =>
    obtain ⟨hf, hfields⟩ := List.forall_mem_cons.1 h
    cases fields with
    | nil =>
      rw [fieldTokens, List.append_assoc, run_field hf hdepth, List.singleton_append, run_cons]
      simp only [step, leave, List.reverse_cons]
    | cons g fields =>
      have hrest := ih (List.cons_ne_nil g fields) hfields (f :: before)
      rw [fieldTokens, List.append_assoc, run_field hf hdepth, List.cons_append, run_cons]
      · simp only [step, Option.bind_some, hrest]
        simp
      · exact List.cons_ne_nil g fields

/-- An object is read back if its fields are, one level deeper. -/
theorem hands_obj {fields : List (String × Json)} (h : ∀ f ∈ fields, Hands depth f.2.tokens f.2) :
    Hands (depth + 1) (Json.obj fields).tokens (.obj fields) := by
  intro pending rest hdepth
  have henter : enter pending (.object []) .firstField =
      some ⟨.object [] :: pending, .firstField⟩ :=
    if_pos (by omega)
  rw [tokens, List.cons_append, run_cons]
  simp only [step, startValue, henter, Option.bind_some]
  cases fields with
  | nil =>
    rw [fieldTokens, List.singleton_append, run_cons]
    simp only [step, leave, startField, Option.or_none, List.reverse_nil]
  | cons f fields =>
    have hfirst : run ⟨.object [] :: pending, .firstField⟩ (fieldTokens (f :: fields) ++ rest) =
        run ⟨.object [] :: pending, .field⟩ (fieldTokens (f :: fields) ++ rest) := by
      cases fields with
      | nil => rfl
      | cons g fields => rfl
    rw [hfirst, run_fields (List.cons_ne_nil f fields) h hdepth, List.reverse_nil, List.nil_append]

/-- The tokens of a value hand it to what is open. -/
theorem hands_tokens {v : Json} (h : Writable depth v) : Hands depth v.tokens v := by
  induction h with
  | null => exact hands_word rfl
  | bool b => cases b <;> exact hands_word rfl
  | nat h => exact hands_word (scalar?_repr h)
  | str s => exact hands_text s
  | arr _ ih => exact hands_arr ih
  | obj _ ih => exact hands_obj ih

end Builder

/-! ## Layouts -/

variable {v : Json}

theorem ofTokens?_tokens (h : Writable Builder.depthLimit v) : ofTokens? v.tokens = some v := by
  have hrun := Builder.hands_tokens h [] [] (Nat.le_of_eq (Nat.zero_add _))
  rw [List.append_nil] at hrun
  exact hrun

/-- A value is read back from its compact layout. -/
theorem parse?_compact (h : Writable Builder.depthLimit v) : parse? v.compact = some v := by
  rw [parse?, compact, String.toList_ofList, tokens?_eq_some (saysBeforeEnd_compactChars h),
    Option.bind_some, ofTokens?_tokens h]

/-- A value is read back from its layout with one item per line. -/
theorem parse?_pretty (h : Writable Builder.depthLimit v) : parse? v.pretty = some v := by
  rw [parse?, pretty, String.toList_ofList, tokens?_eq_some (saysBeforeEnd_prettyChars h 0),
    Option.bind_some, ofTokens?_tokens h]

/-! ## Line breaks -/

theorem newline_not_mem_hexByte (b : UInt8) : '\n' ∉ Digest.hexByte b := by
  have hdigit : ∀ d < 16, '\n' ≠ Digest.hexDigit d := by decide
  have hbyte : b.toNat < 256 := b.toNat_lt
  have hhigh := hdigit (b.toNat / 16) (by omega)
  have hlow := hdigit (b.toNat % 16) (by omega)
  simp [Digest.hexByte, hhigh, hlow]

theorem newline_not_mem_escapeChar (c : Char) : '\n' ∉ escapeChar c := by
  unfold escapeChar
  split_ifs with _ _ _ _ hfeed
  iterate 7 · decide
  · simp [newline_not_mem_hexByte]
  · simpa using Ne.symm hfeed

theorem newline_not_mem_quote (s : String) : '\n' ∉ quote s := by
  simp [quote, newline_not_mem_escapeChar]

theorem newline_not_mem_compactItems {items : List Json}
    (h : ∀ v ∈ items, '\n' ∉ v.compactChars) : '\n' ∉ compactItems items := by
  induction items with
  | nil => decide
  | cons v items ih =>
    obtain ⟨hv, hitems⟩ := List.forall_mem_cons.1 h
    cases items with
    | nil => simp [compactItems, hv]
    | cons w items => simp [compactItems, hv, ih hitems]

theorem newline_not_mem_compactFields {fields : List (String × Json)}
    (h : ∀ f ∈ fields, '\n' ∉ f.2.compactChars) : '\n' ∉ compactFields fields := by
  induction fields with
  | nil => decide
  | cons f fields ih =>
    obtain ⟨hf, hfields⟩ := List.forall_mem_cons.1 h
    cases fields with
    | nil => simp [compactFields, hf, newline_not_mem_quote]
    | cons g fields => simp [compactFields, hf, newline_not_mem_quote, ih hfields]

/-- The compact layout is one line, whatever the texts hold. -/
theorem newline_not_mem_compactChars {depth : Nat} (h : Writable depth v) :
    '\n' ∉ v.compactChars := by
  induction h with
  | null => decide
  | bool b => cases b <;> decide
  | nat => exact fun hmem => absurd ((isWord_repr _).2 _ hmem) (by decide)
  | str s => exact newline_not_mem_quote s
  | arr _ ih =>
    exact List.not_mem_cons_of_ne_of_not_mem (by decide) (newline_not_mem_compactItems ih)
  | obj _ ih =>
    exact List.not_mem_cons_of_ne_of_not_mem (by decide) (newline_not_mem_compactFields ih)

end CodeImpact.Json
