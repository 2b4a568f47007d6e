import LayoutLexer.FileTree
import Mathlib.Data.List.TakeWhile

/-!
# Files that are created

A file is created at the end of a path through directories, so putting it there takes
no directory away.  The path still leads to the place, and what is written there is what
is read.  A device is left as it is.
-/

namespace LayoutLexer

theorem exists_of_bind_eq_ok {Fault α β : Type} {first : Except Fault α}
    {goOn : α → Except Fault β} {result : β} (whole : (first >>= goOn) = .ok result) :
    ∃ value, first = .ok value ∧ goOn value = .ok result := by
  cases first with
  | error fault => cases whole
  | ok value => exact ⟨value, rfl, whole⟩

namespace FileTree

variable {tree files : FileTree} {location origin place found : Location} {path : Bytes}

/-- Of what is put at one location in turn, the last stays. -/
theorem put_put (tree : FileTree) (location : Location) (first second : Node) :
    (tree.put location first).put location second = tree.put location second := by
  simp [put]

theorem begin_put (tree : FileTree) (location : Location) (node : Node) (path : Bytes) :
    (tree.put location node).begin path = tree.begin path :=
  rfl

/-! ## The room on the disk -/

theorem put_withRoom (tree : FileTree) (room : Room) (location : Location) (node : Node) :
    (tree.withRoom room).put location node = (tree.put location node).withRoom room :=
  rfl

theorem withRoom_withRoom (tree : FileTree) (first second : Room) :
    (tree.withRoom first).withRoom second = tree.withRoom second :=
  rfl

theorem follow_withRoom (tree : FileTree) (room : Room) (origin : Location)
    (names : List Bytes) :
    (tree.withRoom room).follow origin names = tree.follow origin names := by
  induction names generalizing origin with
  | nil => rfl
  | cons name names ih =>
      have entered : (tree.withRoom room).enter origin name = tree.enter origin name := rfl
      rw [follow, follow, entered]
      cases tree.enter origin name with
      | error fault => rfl
      | ok next => exact ih next

theorem read_withRoom (tree : FileTree) (room : Room) (path : Bytes) :
    (tree.withRoom room).read path = tree.read path := by
  have begins : (tree.withRoom room).begin path = tree.begin path := rfl
  simp only [read, begins, follow_withRoom, node?_withRoom]

/-! ## Following a path -/

theorem follow_append (tree : FileTree) (origin : Location) (front back : List Bytes) :
    tree.follow origin (front ++ back) =
      (do tree.follow (← tree.follow origin front) back) := by
  induction front generalizing origin with
  | nil => rfl
  | cons name front ih =>
      rw [List.cons_append, follow, follow]
      cases tree.enter origin name with
      | error fault => rfl
      | ok next => exact ih next

theorem follow_singleton (tree : FileTree) (origin : Location) (name : Bytes) :
    tree.follow origin [name] = tree.enter origin name := by
  rw [follow]
  cases tree.enter origin name <;> rfl

theorem directoryAt_eq_ok (isDirectory : tree.directoryAt place = .ok found) :
    found = place ∧ tree.node? place = some .directory := by
  unfold directoryAt at isDirectory
  split at isDirectory
  · rename_i here
    exact ⟨(Except.ok.inj isDirectory).symm, here⟩
  all_goals cases isDirectory

/-- A location where no directory stands is not on the way to any other. -/
theorem enter_put (node : Node) {name : Bytes} (notRoot : location ≠ [])
    (notDirectory : tree.node? location ≠ some .directory)
    (entered : tree.enter place name = .ok found) :
    (tree.put location node).enter place name = .ok found := by
  obtain ⟨directory, isDirectory, -⟩ := exists_of_bind_eq_ok entered
  have elsewhere : place ≠ location := by
    rintro rfl
    exact notDirectory (directoryAt_eq_ok isDirectory).2
  have same : (tree.put location node).directoryAt place = tree.directoryAt place := by
    rw [directoryAt, directoryAt, node?_put tree node place notRoot, if_neg elsewhere]
  rwa [enter, same]

theorem follow_put (node : Node) {names : List Bytes} (notRoot : location ≠ [])
    (notDirectory : tree.node? location ≠ some .directory)
    (followed : tree.follow origin names = .ok found) :
    (tree.put location node).follow origin names = .ok found := by
  induction names generalizing origin with
  | nil => exact followed
  | cons name names ih =>
      obtain ⟨next, entered, goesOn⟩ := exists_of_bind_eq_ok followed
      rw [follow, enter_put node notRoot notDirectory entered]
      exact ih goesOn

/-! ## The place of a created file -/

theorem enter_ne_nil {name : Bytes} (entered : tree.enter place name = .ok found)
    (notEmpty : name ≠ []) (notSelf : name ≠ selfName) (notParent : name ≠ parentName) :
    found ≠ [] := by
  obtain ⟨directory, -, goesOn⟩ := exists_of_bind_eq_ok entered
  simp only [notEmpty, notSelf, notParent, or_self, if_false] at goesOn
  split at goesOn
  · cases goesOn
  · cases goesOn
    exact List.append_ne_nil_of_right_ne_nil _ (List.cons_ne_nil _ _)

theorem eq_append_of_dropWhile_reverse {names parents : List Bytes} {last : Bytes}
    (isRest : names.reverse.dropWhile (· = []) = last :: parents)
    (notOpen : names.getLast? ≠ some []) : names = parents.reverse ++ [last] ∧ last ≠ [] := by
  cases reversed : names.reverse with
  | nil =>
      rw [reversed] at isRest
      cases isRest
  | cons first others =>
      rw [← List.head?_reverse, reversed, List.head?_cons, ne_eq, Option.some.injEq] at notOpen
      rw [reversed, List.dropWhile_cons_of_neg (by simpa using notOpen), List.cons.injEq] at isRest
      obtain ⟨rfl, rfl⟩ := isRest
      rw [← List.reverse_reverse names, reversed, List.reverse_cons]
      exact ⟨rfl, notOpen⟩

/-- A file is created where its path leads, and never in place of the root. -/
theorem creationLocation_eq_ok (isPlace : tree.creationLocation path = .ok location) :
    location ≠ [] ∧ ∃ origin names, tree.begin path = .ok (origin, names) ∧
      tree.follow origin names = .ok location := by
  obtain ⟨⟨origin, names⟩, begins, goesOn⟩ := exists_of_bind_eq_ok isPlace
  dsimp only at goesOn
  split at goesOn
  · cases goesOn
  · rename_i last parents isRest
    obtain ⟨parent, followed, inParent⟩ := exists_of_bind_eq_ok goesOn
    obtain ⟨directory, isDirectory, ends⟩ := exists_of_bind_eq_ok inParent
    obtain ⟨rfl, -⟩ := directoryAt_eq_ok isDirectory
    split at ends
    · cases ends
    · rename_i isName
      simp only [not_or] at isName
      obtain ⟨notOpen, notSelf, notParent⟩ := isName
      obtain ⟨parts, notEmpty⟩ := eq_append_of_dropWhile_reverse isRest notOpen
      refine ⟨enter_ne_nil ends notEmpty notSelf notParent, origin, names, begins, ?_⟩
      rw [parts, follow_append, followed]
      exact (follow_singleton tree directory last).trans ends

/-- A created file is empty, and no other file has changed.  A device is left as it is. -/
theorem create_eq_ok (created : tree.create path = .ok (location, files)) :
    tree.creationLocation path = .ok location ∧ tree.node? location ≠ some .directory ∧
      ((tree.node? location = some .fullDevice ∧ files = tree) ∨
        (tree.node? location ≠ some .fullDevice ∧
          files = (tree.put location (.file [])).withRoom files.room)) := by
  obtain ⟨place, isPlace, goesOn⟩ := exists_of_bind_eq_ok created
  split at goesOn
  · cases goesOn
  · rename_i here
    cases goesOn
    exact ⟨isPlace, by simp [here], .inl ⟨here, rfl⟩⟩
  · rename_i here
    cases goesOn
    exact ⟨isPlace, by simp [here], .inr ⟨by simp [here], rfl⟩⟩
  · rename_i here
    cases goesOn
    exact ⟨isPlace, by simp [here], .inr ⟨by simp [here], rfl⟩⟩

theorem create_ne_nil (created : tree.create path = .ok (location, files)) : location ≠ [] :=
  (creationLocation_eq_ok (create_eq_ok created).1).1

/-- What is put where a file has been created is what is read at its path. -/
theorem read_put (created : tree.create path = .ok (location, files)) (content : Bytes) :
    (tree.put location (.file content)).read path = .ok content := by
  obtain ⟨isPlace, notDirectory, -⟩ := create_eq_ok created
  obtain ⟨notRoot, origin, names, begins, followed⟩ := creationLocation_eq_ok isPlace
  have leads := follow_put (.file content) notRoot notDirectory followed
  have here : (tree.put location (.file content)).node? location = some (.file content) := by
    rw [node?_put tree _ _ notRoot, if_pos rfl]
  simp only [read, begin_put, begins, bind, Except.bind, leads, here]

end FileTree

end LayoutLexer
