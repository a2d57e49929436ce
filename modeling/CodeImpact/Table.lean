/-!
# Tables with text keys

A finite map from texts to values, kept as a list in strictly increasing key order. Texts compare
by their code points. Because the order is part of the type, two tables with the same entries are
equal, whatever the order of the insertions that built them.
-/

namespace CodeImpact

universe u v

namespace Table

variable {α : Type u}

/-- The value of the first entry with this key. -/
def find? (key : String) : List (String × α) → Option α
  | [] => none
  | (k, a) :: rest => if k = key then some a else find? key rest

/-- Puts an entry at its place in an ordered list, in the place of one with the same key. -/
def place (key : String) (a : α) : List (String × α) → List (String × α)
  | [] => [(key, a)]
  | (k, b) :: rest =>
    if key < k then (key, a) :: (k, b) :: rest
    else if k = key then (key, a) :: rest
    else (k, b) :: place key a rest

/-- Strictly increasing keys. -/
def Ordered (entries : List (String × α)) : Prop :=
  entries.Pairwise fun x y => x.1 < y.1

theorem mem_place {key : String} {a : α} {entries : List (String × α)} {x : String × α}
    (h : x ∈ place key a entries) : x = (key, a) ∨ x ∈ entries := by
  induction entries with
  | nil => simpa [place] using h
  | cons e rest ih =>
    obtain ⟨k, b⟩ := e
    unfold place at h
    split at h
    · simpa using h
    · split at h
      · rcases List.mem_cons.1 h with h | h
        · exact .inl h
        · exact .inr (List.mem_cons_of_mem _ h)
      · rcases List.mem_cons.1 h with h | h
        · exact .inr (h ▸ List.mem_cons_self)
        · exact (ih h).imp_right (List.mem_cons_of_mem _)

theorem Ordered.place {entries : List (String × α)} (h : Ordered entries) (key : String) (a : α) :
    Ordered (place key a entries) := by
  induction entries with
  | nil => simp [Table.place, Ordered]
  | cons e rest ih =>
    obtain ⟨k, b⟩ := e
    obtain ⟨hk, hrest⟩ := List.pairwise_cons.1 h
    unfold Table.place
    split
    next hlt =>
      refine List.pairwise_cons.2 ⟨fun x hx => ?_, h⟩
      rcases List.mem_cons.1 hx with rfl | hx
      · exact hlt
      · exact String.lt_trans hlt (hk x hx)
    next hlt =>
      split
      next heq => exact List.pairwise_cons.2 ⟨fun x hx => heq ▸ hk x hx, hrest⟩
      next hne =>
        refine List.pairwise_cons.2 ⟨fun x hx => ?_, ih hrest⟩
        rcases mem_place hx with rfl | hx
        · exact Std.lt_of_le_of_ne (String.not_lt.1 hlt) hne
        · exact hk x hx

end Table

/-- A map from texts to values in key order. -/
structure Table (α : Type u) where
  /-- The entries in key order. -/
  entries : List (String × α)
  /-- No key occurs twice. -/
  ordered : Table.Ordered entries

namespace Table

variable {α : Type u} {β : Type v}

def empty : Table α :=
  ⟨[], List.Pairwise.nil⟩

instance : Inhabited (Table α) :=
  ⟨empty⟩

instance [DecidableEq α] : DecidableEq (Table α) := fun t s =>
  decidable_of_iff (t.entries = s.entries) (by cases t; cases s; simp)

def get? (t : Table α) (key : String) : Option α :=
  find? key t.entries

def contains (t : Table α) (key : String) : Bool :=
  (t.get? key).isSome

/-- Sets the value under a key; an earlier value is replaced. -/
def insert (t : Table α) (key : String) (a : α) : Table α :=
  ⟨place key a t.entries, t.ordered.place key a⟩

/-- Sets the value under a key unless it has one. -/
def insertNew (t : Table α) (key : String) (a : α) : Table α :=
  if t.contains key then t else t.insert key a

def keys (t : Table α) : List String :=
  t.entries.map (·.1)

def values (t : Table α) : List α :=
  t.entries.map (·.2)

def size (t : Table α) : Nat :=
  t.entries.length

/-- Changes every value and keeps the keys. -/
def map (f : String → α → β) (t : Table α) : Table β :=
  ⟨t.entries.map fun e => (e.1, f e.1 e.2), List.pairwise_map.2 (t.ordered.imp id)⟩

/-- Inserts the entries one by one, so that of two with one key the later counts. -/
def ofList (entries : List (String × α)) : Table α :=
  entries.foldl (fun t (k, a) => t.insert k a) empty

/-- Inserts the entries one by one, so that of two with one key the earlier counts. -/
def ofListFirst (entries : List (String × α)) : Table α :=
  entries.foldl (fun t (k, a) => t.insertNew k a) empty

/-- Puts all entries of the second table into the first. -/
def insertAll (t s : Table α) : Table α :=
  s.entries.foldl (fun r (k, a) => r.insert k a) t

end Table

/-- The texts of a list in strictly increasing order. -/
def sortedSet (texts : List String) : List String :=
  (Table.ofList (texts.map fun s => (s, ()))).keys

end CodeImpact
