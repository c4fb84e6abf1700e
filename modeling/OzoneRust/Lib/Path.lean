import Mathlib.Data.List.Basic

/-!
# Paths

An absolute path as the list of its components. Text is split at slashes; empty components
and `.` are dropped and `..` is kept (`OzoneRust.Path.components`), and a relative text is
appended (`OzoneRust.Path.join`). The last component and the others are taken as they stand,
without looking at `..` (`OzoneRust.Path.fileName`, `OzoneRust.Path.parent`).

`OzoneRust.Path.resolve` is the place a path names when `..` is resolved lexically. A text
without a slash that is not empty or made of dots is one component
(`OzoneRust.Path.join_of_plain`), and so adds one step to the place
(`OzoneRust.Path.resolve_join_of_plain`).
-/

namespace OzoneRust

/-- A component of a path. -/
inductive Component where
  /-- The name of a file or directory. -/
  | normal (name : String)
  /-- `..`. -/
  | parentDir
  deriving DecidableEq, Repr

/-- An absolute path. -/
abbrev Path := List Component

namespace Path

/-- The component a piece between two slashes stands for, if any. -/
def ofPiece (cs : List Char) : Option Component :=
  if cs = [] ∨ cs = ['.'] then none
  else if cs = ['.', '.'] then some .parentDir
  else some (.normal (String.ofList cs))

/-- The components of a text. -/
def components (s : String) : Path := (s.toList.splitOn '/').filterMap ofPiece

/-- `Path::join`: a text that begins with a slash stands alone. -/
def join (p : Path) (s : String) : Path :=
  if s.toList.head? = some '/' then components s else p ++ components s

/-- `Path::file_name`. -/
def fileName (p : Path) : Option String :=
  match p.getLast? with
  | some (.normal name) => some name
  | _ => none

/-- `Path::parent`. -/
def parent (p : Path) : Option Path := if p = [] then none else some p.dropLast

/-- `Path::with_file_name`. -/
def withFileName (p : Path) (name : String) : Path :=
  join (if p.fileName.isSome then p.dropLast else p) name

/-- One component of a path, resolved. -/
def step (q : List String) : Component → List String
  | .normal name => q ++ [name]
  | .parentDir => q.dropLast

/-- The place a path names. -/
def resolve (p : Path) : List String := p.foldl step []

/-- A text that is one component of a path. -/
def Plain (s : String) : Prop := '/' ∉ s.toList ∧ s.toList ∉ [[], ['.'], ['.', '.']]

instance (s : String) : Decidable (Plain s) := inferInstanceAs (Decidable (_ ∧ _))

theorem components_of_plain {s : String} (h : Plain s) : components s = [.normal s] := by
  obtain ⟨hslash, hdots⟩ := h
  simp only [List.mem_cons, List.not_mem_nil, or_false, not_or] at hdots
  have hsplit : s.toList.splitOn '/' = [s.toList] :=
    List.splitOnP_eq_singleton fun c hc => by
      rw [beq_eq_false_iff_ne]
      rintro rfl
      exact hslash hc
  rw [components, hsplit, List.filterMap_cons, ofPiece, if_neg (by simp [hdots]), if_neg hdots.2.2,
    String.ofList_toList]
  rfl

theorem join_of_plain {s : String} (h : Plain s) (p : Path) : p.join s = p ++ [.normal s] := by
  have hhead : s.toList.head? ≠ some '/' := fun hhead => h.1 (List.mem_of_mem_head? hhead)
  rw [join, if_neg hhead, components_of_plain h]

theorem resolve_append_normal (p : Path) (name : String) :
    resolve (p ++ [.normal name]) = resolve p ++ [name] := by
  rw [resolve, List.foldl_append]
  rfl

theorem resolve_join_of_plain {s : String} (h : Plain s) (p : Path) :
    resolve (p.join s) = resolve p ++ [s] := by
  rw [join_of_plain h, resolve_append_normal]

theorem fileName_append_normal (p : Path) (name : String) :
    fileName (p ++ [.normal name]) = some name := by
  rw [fileName, List.getLast?_concat]

theorem parent_append (p : Path) (c : Component) : parent (p ++ [c]) = some p := by
  rw [parent, if_neg (List.append_ne_nil_of_right_ne_nil _ (List.cons_ne_nil _ _)),
    List.dropLast_concat]

theorem withFileName_append_normal {name : String} (h : Plain name) (p : Path) (old : String) :
    withFileName (p ++ [.normal old]) name = p ++ [.normal name] := by
  rw [withFileName, fileName_append_normal, Option.isSome_some, if_pos rfl, List.dropLast_concat,
    join_of_plain h]

end Path

/-- Two texts with a separator are the same only piece by piece. -/
theorem append_cons_inj {α : Type} {sep : α} {xs xs' ys ys' : List α} (hxs : sep ∉ xs)
    (hxs' : sep ∉ xs') : xs ++ sep :: ys = xs' ++ sep :: ys' ↔ xs = xs' ∧ ys = ys' := by
  constructor
  · intro h
    induction xs generalizing xs' with
    | nil =>
      cases xs' with
      | nil => exact ⟨rfl, (List.cons.inj h).2⟩
      | cons x xs' =>
        rw [(List.cons.inj h).1] at hxs'
        exact absurd List.mem_cons_self hxs'
    | cons x xs ih =>
      cases xs' with
      | nil =>
        rw [(List.cons.inj h).1] at hxs
        exact absurd List.mem_cons_self hxs
      | cons x' xs' =>
        obtain ⟨rfl, htail⟩ := List.cons.inj h
        obtain ⟨rfl, rfl⟩ := ih (fun hm => hxs (List.mem_cons_of_mem _ hm))
          (fun hm => hxs' (List.mem_cons_of_mem _ hm)) htail
        exact ⟨rfl, rfl⟩
  · rintro ⟨rfl, rfl⟩
    rfl

end OzoneRust
