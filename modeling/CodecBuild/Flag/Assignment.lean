import CodecBuild.Flag.Catalog

/-!
Assignments of values to flags. A flag that is unset has no value; an assignment does not care whether a
value fits its flag.
-/

namespace CodecBuild

@[ext] structure Assignment where
  get? : Flag → Option FlagValue

namespace Assignment

instance : DecidableEq Assignment := fun a b =>
  decidable_of_iff (∀ f, a.get? f = b.get? f) ⟨fun h => Assignment.ext (funext h), fun h _ => h ▸ rfl⟩

def empty : Assignment := ⟨fun _ => none⟩

def defaults : Assignment := ⟨Flag.default?⟩

def insert (a : Assignment) (f : Flag) (v : FlagValue) : Assignment :=
  ⟨fun g => if g = f then some v else a.get? g⟩

def contains (a : Assignment) (f : Flag) : Bool := (a.get? f).isSome

/-- A boolean flag without a value, or with one of another kind, is off. -/
def isOn (a : Assignment) (f : Flag) : Bool := ((a.get? f).bind FlagValue.bool?).getD false

/-- The empty path counts as no path. -/
def path? (a : Assignment) (f : Flag) : Option Path :=
  ((a.get? f).bind FlagValue.path?).filter fun p => !p.isEmpty

def text? (a : Assignment) (f : Flag) : Option String := (a.get? f).bind FlagValue.text?

def entries (a : Assignment) : List (Flag × FlagValue) :=
  Flag.all.filterMap fun f => (a.get? f).map (f, ·)

def size (a : Assignment) : Nat := a.entries.length

def isEmpty (a : Assignment) : Bool := a.entries.isEmpty

def agree : Option FlagValue → Option FlagValue → Bool
  | none, none => true
  | some v, some w => v.same w
  | _, _ => false

/-- Whether `a` holds a value for `f` that `base` does not. -/
def differs (a base : Assignment) (f : Flag) : Bool := a.contains f && !agree (a.get? f) (base.get? f)

/-- What has to be written over `base` to arrive at `a`. -/
def diff (a base : Assignment) : Assignment := ⟨fun f => if a.differs base f then a.get? f else none⟩

/-- Equality of assignments, where paths count by their components. -/
def same (a b : Assignment) : Bool := Flag.all.all fun f => agree (a.get? f) (b.get? f)

theorem get?_insert_self (a : Assignment) (f : Flag) (v : FlagValue) :
    (a.insert f v).get? f = some v := by
  simp [insert]

theorem get?_insert_of_ne (a : Assignment) {f g : Flag} (h : g ≠ f) (v : FlagValue) :
    (a.insert f v).get? g = a.get? g := by
  simp [insert, h]

theorem isOn_iff {a : Assignment} {f : Flag} : a.isOn f = true ↔ a.get? f = some (.bool true) := by
  cases h : a.get? f with
  | none => simp [isOn, h]
  | some v => cases v <;> simp [isOn, h, FlagValue.bool?]

theorem path?_eq_some_iff {a : Assignment} {f : Flag} {p : Path} :
    a.path? f = some p ↔ a.get? f = some (.path p) ∧ p.text ≠ "" := by
  cases h : a.get? f with
  | none => simp [path?, h]
  | some v =>
      cases v with
      | path q =>
          simp only [path?, h, Option.bind_some, FlagValue.path?, Option.filter_some, Path.isEmpty]
          grind [String.isEmpty_iff]
      | bool _ | choice _ | text _ => simp [path?, h, FlagValue.path?]

theorem mem_entries {a : Assignment} {f : Flag} {v : FlagValue} :
    (f, v) ∈ a.entries ↔ a.get? f = some v := by
  simp [entries, Flag.mem_all]

end Assignment
end CodecBuild
