import Mathlib.Data.List.Infix
import Mathlib.Logic.Function.Basic
import OzoneRust.Lib.Outcome
import OzoneRust.Lib.Path

/-!
# A tree of files

The files and directories under a root, as a map from places to what is there. That every
file and directory lies in a directory is a field of `OzoneRust.FileTree`, and the operations
that create, move and remove files keep it. An operation that the tree does not allow, such
as a write where a directory is, is `none`.

`OzoneRust.FileOp.Answers` are the calls a program makes, which can fail at any time
(`OzoneRust.FileOp.faults`): a failed write may leave anything in the file, a failed removal of
a directory may have removed a part of it, and everything else leaves the tree as it was. What
a call can change at all is in `OzoneRust.FileOp.Answers.frame`.
-/

namespace OzoneRust

/-- What can be at a place. -/
inductive FileNode (δ : Type) where
  /-- A directory. -/
  | dir
  /-- A file with what it holds. -/
  | file (data : δ)
  deriving DecidableEq, Repr

/-- Files and directories, each in a directory. -/
@[ext]
structure FileTree (δ : Type) where
  /-- What is at a place. -/
  node : List String → Option (FileNode δ)
  /-- What is somewhere is in a directory. -/
  tree : ∀ q, q ≠ [] → node q ≠ none → node q.dropLast = some .dir

namespace FileTree

variable {δ : Type} [DecidableEq δ] (t : FileTree δ)

/-- A root directory without files. -/
def empty : FileTree δ where
  node q := if q = [] then some .dir else none
  tree _ hq h := absurd (if_neg hq) h

/-- A file can be put at a place: it is in a directory, and is not one itself. -/
def CanWrite (q : List String) : Prop :=
  q ≠ [] ∧ t.node q.dropLast = some .dir ∧ t.node q ≠ some .dir

instance (q : List String) : Decidable (t.CanWrite q) := inferInstanceAs (Decidable (_ ∧ _))

/-- A file is put at a place. -/
def putFile {q : List String} (h : t.CanWrite q) (data : δ) : FileTree δ where
  node := Function.update t.node q (some (.file data))
  tree p hp hnode := by
    obtain ⟨hq, hparent, hdir⟩ := h
    have hne : p.dropLast ≠ q := by
      rintro rfl
      by_cases hpq : p = p.dropLast
      · exact absurd (congrArg List.length hpq) (by
          have := List.length_pos_iff.mpr hp
          rw [List.length_dropLast]
          omega)
      · rw [Function.update_of_ne hpq] at hnode
        exact hdir (t.tree p hp hnode)
    rw [Function.update_of_ne hne]
    by_cases hpq : p = q
    · rw [hpq]
      exact hparent
    · rw [Function.update_of_ne hpq] at hnode
      exact t.tree p hp hnode

/-- `fs::write`. -/
def write (q : List String) (data : δ) : Option (FileTree δ) :=
  if h : t.CanWrite q then some (t.putFile h data) else none

/-- What meets a condition is removed, with all that is in it. -/
def prune (S : List String → Bool) (hS : ∀ p, p ≠ [] → S p.dropLast = true → S p = true) :
    FileTree δ where
  node q := if S q then none else t.node q
  tree p hp hnode := by
    have hSp : S p ≠ true := fun h => hnode (if_pos h)
    rw [if_neg hSp] at hnode
    rw [if_neg fun h => hSp (hS p hp h)]
    exact t.tree p hp hnode

/-- A file is removed. -/
def removeFile (q : List String) : Option (FileTree δ) :=
  match hq : t.node q with
  | some (.file _) => some
    { node := Function.update t.node q none
      tree := fun p hp hnode => by
        have hpq : p ≠ q := by
          rintro rfl
          exact hnode (Function.update_self ..)
        rw [Function.update_of_ne hpq] at hnode
        have hparent := t.tree p hp hnode
        have hne : p.dropLast ≠ q := by
          rintro rfl
          rw [hq] at hparent
          cases hparent
        rw [Function.update_of_ne hne]
        exact hparent }
  | _ => none

/-- `fs::rename` of a file. -/
def rename (a b : List String) : Option (FileTree δ) :=
  match t.node a with
  | some (.file data) => (t.removeFile a).bind fun t' => t'.write b data
  | _ => none

/-- A directory and those it is in can be made: no file is in the way. -/
def CanMake (q : List String) : Prop := ∀ p ∈ q.inits, t.node p = none ∨ t.node p = some .dir

instance (q : List String) : Decidable (t.CanMake q) := inferInstanceAs (Decidable (∀ p ∈ _, _))

/-- `fs::create_dir_all`. -/
def createDirAll (q : List String) : Option (FileTree δ) :=
  if h : t.CanMake q then some
    { node := fun p => if p ∈ q.inits then some .dir else t.node p
      tree := fun p hp hnode => by
        have hinit : p ∈ q.inits → p.dropLast ∈ q.inits := fun hmem =>
          (List.mem_inits _ _).mpr ((List.dropLast_prefix p).trans ((List.mem_inits _ _).mp hmem))
        by_cases hmem : p ∈ q.inits
        · rw [if_pos (hinit hmem)]
        · rw [if_neg hmem] at hnode
          have hparent := t.tree p hp hnode
          split
          · rfl
          · exact hparent }
  else none

/-- The places in a directory, and the directory. -/
def under (q p : List String) : Bool := q.isPrefixOf p

theorem under_of_dropLast {q p : List String} (h : under q p.dropLast = true) :
    under q p = true :=
  List.isPrefixOf_iff_prefix.mpr ((List.isPrefixOf_iff_prefix.mp h).trans (List.dropLast_prefix p))

/-- `fs::remove_dir_all`. -/
def removeDirAll (q : List String) : Option (FileTree δ) :=
  if t.node q = some .dir then some (t.prune (under q) fun _ _ => under_of_dropLast) else none

variable {t} {t' : FileTree δ} {q p : List String}

omit [DecidableEq δ] in
theorem under_iff : under q p = true ↔ q <+: p := List.isPrefixOf_iff_prefix

theorem node_write {data : δ} (h : t.write q data = some t') :
    t'.node = Function.update t.node q (some (.file data)) := by
  unfold write at h
  split at h
  · cases h
    rfl
  · cases h

omit [DecidableEq δ] in
theorem node_removeFile (h : t.removeFile q = some t') :
    t'.node = Function.update t.node q none := by
  unfold removeFile at h
  split at h
  · cases h
    rfl
  · cases h

theorem node_rename {a b : List String} {data : δ} (ha : t.node a = some (.file data))
    (h : t.rename a b = some t') :
    t'.node = Function.update (Function.update t.node a none) b (some (.file data)) := by
  unfold rename at h
  rw [ha] at h
  obtain ⟨t₁, h₁, h₂⟩ := Option.bind_eq_some_iff.mp h
  rw [node_write h₂, node_removeFile h₁]

theorem node_createDirAll (h : t.createDirAll q = some t') :
    t'.node p = if p <+: q then some .dir else t.node p := by
  unfold createDirAll at h
  split at h
  · cases h
    simp only [List.mem_inits]
  · cases h

theorem exists_write (h : t.CanWrite q) (data : δ) : ∃ t', t.write q data = some t' :=
  ⟨_, dif_pos h⟩

theorem exists_createDirAll (h : t.CanMake q) : ∃ t', t.createDirAll q = some t' :=
  ⟨_, dif_pos h⟩

omit [DecidableEq δ] in
theorem exists_removeFile {data : δ} (h : t.node q = some (.file data)) :
    ∃ t', t.removeFile q = some t' := by
  unfold removeFile
  split
  case h_1 => exact ⟨_, rfl⟩
  case h_2 hno => exact absurd h (hno data)

theorem cases_rename {a b : List String} (h : t.rename a b = some t') :
    ∃ data, t.node a = some (.file data) ∧
      ∃ t₁, t.removeFile a = some t₁ ∧ t₁.write b data = some t' := by
  unfold rename at h
  split at h
  case h_1 data ha => exact ⟨data, ha, Option.bind_eq_some_iff.mp h⟩
  case h_2 => cases h

/-- A file is moved within its directory. -/
theorem exists_rename {x y : String} {data : δ} (hx : t.node (q ++ [x]) = some (.file data))
    (hy : t.node (q ++ [y]) ≠ some .dir) :
    ∃ t', t.rename (q ++ [x]) (q ++ [y]) = some t' := by
  have hne : ∀ z : String, q ++ [z] ≠ [] := fun z =>
    List.append_ne_nil_of_right_ne_nil _ (List.cons_ne_nil z [])
  have hparent : t.node q = some .dir := by
    have hdir := t.tree _ (hne x) (by rw [hx]; exact Option.some_ne_none _)
    rwa [List.dropLast_concat] at hdir
  obtain ⟨t₁, h₁⟩ := exists_removeFile hx
  have hcan : t₁.CanWrite (q ++ [y]) := by
    refine ⟨hne y, ?_, ?_⟩
    · rw [List.dropLast_concat, node_removeFile h₁, Function.update_of_ne (by simp), hparent]
    · rw [node_removeFile h₁, Function.update_apply]
      split
      · exact (Option.some_ne_none _).symm
      · exact hy
  obtain ⟨t₂, h₂⟩ := exists_write hcan data
  refine ⟨t₂, ?_⟩
  unfold rename
  rw [hx]
  exact Option.bind_eq_some_iff.mpr ⟨t₁, h₁, h₂⟩

theorem node_removeDirAll (h : t.removeDirAll q = some t') :
    t'.node p = if q <+: p then none else t.node p := by
  unfold removeDirAll at h
  split at h
  · cases h
    simp only [prune, under_iff]
  · cases h

omit [DecidableEq δ] in
/-- Nothing is in what is not there. -/
theorem node_eq_none_below (hq : t.node q = none) (h : q <+: p) : t.node p = none := by
  obtain ⟨s, rfl⟩ := h
  induction s using List.reverseRecOn with
  | nil => rw [List.append_nil, hq]
  | append_singleton s x ih =>
    by_contra hne
    rw [← List.append_assoc] at hne
    have hparent := t.tree _ (List.append_ne_nil_of_right_ne_nil _ (List.cons_ne_nil x [])) hne
    rw [List.dropLast_concat, ih] at hparent
    cases hparent

variable (t) in
/-- What the file at a place holds. -/
def fileAt (q : List String) : Option δ :=
  match t.node q with
  | some (.file data) => some data
  | _ => none

omit [DecidableEq δ] in
theorem fileAt_congr (h : t'.node q = t.node q) : t'.fileAt q = t.fileAt q := by
  rw [fileAt, fileAt, h]

omit [DecidableEq δ] in
theorem fileAt_eq_some {data : δ} : t.fileAt q = some data ↔ t.node q = some (.file data) := by
  unfold fileAt
  rcases t.node q with _ | _ | data' <;> simp

/-- Making directories changes no file. -/
theorem fileAt_createDirAll (h : t.createDirAll q = some t') : t'.fileAt p = t.fileAt p := by
  have hnode := node_createDirAll (p := p) h
  by_cases hp : p <+: q
  · rw [if_pos hp] at hnode
    have hcan : t.CanMake q := by
      by_contra hnot
      rw [createDirAll, dif_neg hnot] at h
      cases h
    rcases hcan p ((List.mem_inits _ _).mpr hp) with hold | hold <;> simp [fileAt, hnode, hold]
  · rw [if_neg hp] at hnode
    exact fileAt_congr hnode

end FileTree

/-! ### Calls -/

/-- Why a call fails. -/
inductive FileError where
  /-- There is nothing at the place. -/
  | notFound
  /-- Any other reason. -/
  | other (message : String)
  deriving DecidableEq, Repr

/-- A call on the tree. -/
inductive FileOp (δ : Type) where
  /-- `fs::create_dir_all`. -/
  | createDirAll (p : Path)
  /-- `fs::write`. -/
  | write (p : Path) (data : δ)
  /-- `fs::rename`. -/
  | rename (a b : Path)
  /-- `fs::read`. -/
  | read (p : Path)
  /-- `fs::remove_file`. -/
  | removeFile (p : Path)
  /-- `fs::remove_dir_all`. -/
  | removeDirAll (p : Path)

/-- What a call returns. -/
abbrev FileOp.Res {δ : Type} : FileOp δ → Type
  | .read _ => Except FileError δ
  | _ => Except FileError Unit

/-- What a call can answer, and the tree it leaves. -/
def FileOp.Answers {δ : Type} [DecidableEq δ] (t : FileTree δ) :
    (op : FileOp δ) → op.Res → FileTree δ → Prop
  | .createDirAll p, r, t' =>
    (r = .ok () ∧ t.createDirAll p.resolve = some t') ∨
      (∃ e, r = .error e) ∧ (t' = t ∨ ∃ q, q <+: p.resolve ∧ t.createDirAll q = some t')
  | .write p data, r, t' =>
    (r = .ok () ∧ t.write p.resolve data = some t') ∨
      (∃ e, r = .error e) ∧ (t' = t ∨ ∃ data', t.write p.resolve data' = some t')
  | .rename a b, r, t' =>
    (r = .ok () ∧ t.rename a.resolve b.resolve = some t') ∨ (∃ e, r = .error e) ∧ t' = t
  | .read p, r, t' =>
    t' = t ∧ match r with
      | .ok data => t.node p.resolve = some (.file data)
      | .error .notFound => t.node p.resolve = none
      | .error (.other _) => True
  | .removeFile p, r, t' =>
    (r = .ok () ∧ t.removeFile p.resolve = some t') ∨
      (r = .error .notFound ∧ t.node p.resolve = none ∧ t' = t) ∨
      (∃ m, r = .error (.other m)) ∧ t' = t
  | .removeDirAll p, r, t' =>
    (r = .ok () ∧ t.removeDirAll p.resolve = some t') ∨
      (r = .error .notFound ∧ t.node p.resolve = none ∧ t' = t) ∨
      (∃ m, r = .error (.other m)) ∧
        ∃ S hS, (∀ q, S q = true → p.resolve <+: q) ∧ t' = t.prune S hS

/-- What a call answers that does not fail by itself, and the tree it leaves. -/
def FileOp.serve {δ : Type} [DecidableEq δ] (t : FileTree δ) : (op : FileOp δ) → op.Res × FileTree δ
  | .createDirAll p => change t (t.createDirAll p.resolve)
  | .write p data => change t (t.write p.resolve data)
  | .rename a b => change t (t.rename a.resolve b.resolve)
  | .read p =>
    match t.node p.resolve with
    | some (.file data) => (.ok data, t)
    | some .dir => (.error (.other "Is a directory (os error 21)"), t)
    | none => (.error .notFound, t)
  | .removeFile p =>
    if t.node p.resolve = none then (.error .notFound, t) else change t (t.removeFile p.resolve)
  | .removeDirAll p =>
    if t.node p.resolve = none then (.error .notFound, t) else change t (t.removeDirAll p.resolve)
where
  /-- A call that changes the tree, if the tree allows it. -/
  change (t : FileTree δ) : Option (FileTree δ) → Except FileError Unit × FileTree δ
    | some t' => (.ok (), t')
    | none => (.error (.other "not allowed"), t)

theorem FileOp.answers_serve {δ : Type} [DecidableEq δ] (t : FileTree δ) (op : FileOp δ) :
    op.Answers t (op.serve t).1 (op.serve t).2 := by
  have hchange : ∀ o : Option (FileTree δ),
      (serve.change t o).1 = .ok () ∧ o = some (serve.change t o).2 ∨
        (∃ m, (serve.change t o).1 = .error (.other m)) ∧ (serve.change t o).2 = t := by
    rintro (_ | t')
    · exact .inr ⟨⟨_, rfl⟩, rfl⟩
    · exact .inl ⟨rfl, rfl⟩
  cases op with
  | createDirAll p => exact (hchange _).imp_right fun ⟨⟨m, hm⟩, ht⟩ => ⟨⟨_, hm⟩, .inl ht⟩
  | write p data => exact (hchange _).imp_right fun ⟨⟨m, hm⟩, ht⟩ => ⟨⟨_, hm⟩, .inl ht⟩
  | rename a b => exact (hchange _).imp_right fun ⟨⟨m, hm⟩, ht⟩ => ⟨⟨_, hm⟩, ht⟩
  | read p =>
    rw [serve]
    split
    · next hnode => exact ⟨rfl, hnode⟩
    · exact ⟨rfl, trivial⟩
    · next hnode => exact ⟨rfl, hnode⟩
  | removeFile p =>
    rw [serve]
    split
    · next hnode => exact .inr (.inl ⟨rfl, hnode, rfl⟩)
    · exact (hchange _).imp_right .inr
  | removeDirAll p =>
    rw [serve]
    split
    · next hnode => exact .inr (.inl ⟨rfl, hnode, rfl⟩)
    · refine (hchange _).imp_right fun ⟨hm, ht⟩ => .inr ⟨hm, fun _ => false, fun _ _ h => h, ?_⟩
      exact ⟨fun _ h => Bool.noConfusion h, ht⟩

/-- The failures of a call. That there is nothing to be read or to be removed is an answer. -/
def FileOp.faults {δ : Type} : (op : FileOp δ) → op.Res → List FileError
  | .createDirAll _, r => failure r
  | .write _ _, r => failure r
  | .rename _ _, r => failure r
  | .read _, r => unexpected r
  | .removeFile _, r => unexpected r
  | .removeDirAll _, r => unexpected r
where
  /-- The error of a call that needs nothing to be there. -/
  failure {α : Type} : Except FileError α → List FileError
    | .ok _ => []
    | .error e => [e]
  /-- The error of a call on something that may be missing. -/
  unexpected {α : Type} : Except FileError α → List FileError
    | .error (.other message) => [.other message]
    | _ => []

/-- The files a call can change. -/
def FileOp.Touches {δ : Type} : FileOp δ → List String → Prop
  | .createDirAll _, _ => False
  | .write p _, q => q = p.resolve
  | .rename a b, q => q = a.resolve ∨ q = b.resolve
  | .read _, _ => False
  | .removeFile p, q => q = p.resolve
  | .removeDirAll p, q => p.resolve <+: q

/-- **What a call leaves alone.** -/
theorem FileOp.Answers.frame {δ : Type} [DecidableEq δ] {t t' : FileTree δ} {op : FileOp δ}
    {r : op.Res} (h : op.Answers t r t') {q : List String} (hq : ¬op.Touches q) :
    t'.fileAt q = t.fileAt q := by
  cases op with
  | createDirAll p =>
    rcases h with ⟨-, h⟩ | ⟨-, rfl | ⟨_, -, h⟩⟩
    · exact FileTree.fileAt_createDirAll h
    · rfl
    · exact FileTree.fileAt_createDirAll h
  | write p data =>
    rcases h with ⟨-, h⟩ | ⟨-, rfl | ⟨_, h⟩⟩
    · exact FileTree.fileAt_congr (by rw [FileTree.node_write h, Function.update_of_ne hq])
    · rfl
    · exact FileTree.fileAt_congr (by rw [FileTree.node_write h, Function.update_of_ne hq])
  | rename a b =>
    rcases h with ⟨-, h⟩ | ⟨-, rfl⟩
    · obtain ⟨data, ha, -⟩ := FileTree.cases_rename h
      rw [FileOp.Touches, not_or] at hq
      exact FileTree.fileAt_congr (by
        rw [FileTree.node_rename ha h, Function.update_of_ne hq.2, Function.update_of_ne hq.1])
    · rfl
  | read p =>
    obtain ⟨rfl, -⟩ := h
    rfl
  | removeFile p =>
    rcases h with ⟨-, h⟩ | ⟨-, -, rfl⟩ | ⟨-, rfl⟩
    · exact FileTree.fileAt_congr (by rw [FileTree.node_removeFile h, Function.update_of_ne hq])
    · rfl
    · rfl
  | removeDirAll p =>
    rcases h with ⟨-, h⟩ | ⟨-, -, rfl⟩ | ⟨-, S, hS, hsub, rfl⟩
    · exact FileTree.fileAt_congr ((FileTree.node_removeDirAll h).trans (if_neg hq))
    · rfl
    · refine FileTree.fileAt_congr (if_neg fun hSq => hq (hsub q hSq))

end OzoneRust
