import TraceLoad.Binary64

/-! # Attributes

What a span says about itself: values under names, each name at most once, in the order of the
names. The order is part of the type, so two sets of attributes with the same content are equal.
-/

namespace TraceLoad

/-- The value of an attribute. -/
inductive AttributeValue where
  | text (s : String)
  | int (n : Int64)
  | real (x : Binary64)
  | flag (b : Bool)
deriving DecidableEq

namespace AttributeValue

/-- The text, if the value is one. -/
def asText? : AttributeValue → Option String
  | text s => some s
  | _ => none

end AttributeValue

/-- Named values in ascending order of their names. -/
@[ext] structure Attributes where
  entries : List (String × AttributeValue)
  sorted : entries.Pairwise fun a b => a.1 < b.1
deriving DecidableEq

namespace Attributes

def empty : Attributes := ⟨[], .nil⟩

/-- Puts a value under a name at its place; a value that was there before is replaced. -/
def insertEntry (k : String) (v : AttributeValue) :
    List (String × AttributeValue) → List (String × AttributeValue)
  | [] => [(k, v)]
  | e :: rest =>
    if k < e.1 then (k, v) :: e :: rest
    else if k = e.1 then (k, v) :: rest
    else e :: insertEntry k v rest

theorem mem_insertEntry {k : String} {v : AttributeValue} {es : List (String × AttributeValue)}
    {e : String × AttributeValue} (h : e ∈ insertEntry k v es) : e = (k, v) ∨ e ∈ es := by
  induction es with
  | nil => simpa [insertEntry] using h
  | cons a rest ih =>
    simp only [insertEntry] at h
    split at h
    · simpa using h
    · split at h
      · rcases List.mem_cons.1 h with h | h
        · exact Or.inl h
        · exact Or.inr (List.mem_cons_of_mem _ h)
      · rcases List.mem_cons.1 h with h | h
        · exact Or.inr (h ▸ List.mem_cons_self)
        · exact (ih h).imp_right (List.mem_cons_of_mem _)

theorem sorted_insertEntry {k : String} {v : AttributeValue}
    {es : List (String × AttributeValue)} (h : es.Pairwise fun a b => a.1 < b.1) :
    (insertEntry k v es).Pairwise fun a b => a.1 < b.1 := by
  induction es with
  | nil => simp [insertEntry]
  | cons e rest ih =>
    have hrest := (List.pairwise_cons.1 h).2
    have hhead := (List.pairwise_cons.1 h).1
    simp only [insertEntry]
    split
    · rename_i hlt
      refine List.pairwise_cons.2 ⟨fun b hb => ?_, h⟩
      rcases List.mem_cons.1 hb with hb | hb
      · exact hb ▸ hlt
      · exact String.lt_trans hlt (hhead b hb)
    · split
      · rename_i heq
        exact List.pairwise_cons.2 ⟨fun b hb => heq ▸ hhead b hb, hrest⟩
      · rename_i hlt hne
        refine List.pairwise_cons.2 ⟨fun b hb => ?_, ih hrest⟩
        rcases mem_insertEntry hb with hb | hb
        · have hle : e.1 ≤ k := String.not_lt.1 hlt
          exact hb ▸ Std.lt_of_le_of_ne hle fun he => hne he.symm
        · exact hhead b hb

/-- The attributes with one more value, which takes the place of an older one of its name. -/
def insert (a : Attributes) (k : String) (v : AttributeValue) : Attributes :=
  ⟨insertEntry k v a.entries, sorted_insertEntry a.sorted⟩

/-- The attributes of a list of named values; of several values of one name the last counts. -/
def ofList (es : List (String × AttributeValue)) : Attributes :=
  es.foldl (fun a e => a.insert e.1 e.2) empty

/-- The attributes together with later ones, which win. -/
def extend (a later : Attributes) : Attributes :=
  later.entries.foldl (fun a e => a.insert e.1 e.2) a

def get? (a : Attributes) (k : String) : Option AttributeValue :=
  (a.entries.find? fun e => e.1 = k).map (·.2)

end Attributes

end TraceLoad
