import PdiStack.Core.SepPath
import PdiStack.Storage.FileSystemInterface

/-!
# Path notations

`updatePathNotations` writes a path without `.` and `..` into a buffer, one separator and
what follows it at a time.  What the buffer holds is a list of names, with a separator
left open behind the last one when the path doubles one.  A `..` that meets the open
separator removes it and no name.  Such a `..` is owed: the names that remain are those of
the components exactly when a later `..`, met at the root, has made up for each.
-/

namespace PdiStack.PathNotations

open StringOperations FileSystemInterface List

def charDot : UInt8 := 0x2E

/-- The dots behind a separator, none when another character stands among them. -/
def dotCount : ℕ → Text → ℕ
  | dotcount, [] => dotcount
  | dotcount, char :: rest =>
    if char = charDot then
      dotCount (dotcount + 1) rest
    else if char = pathSeparator then
      dotcount
    else
      0

/-- The loop over the path, with the characters it still has to skip. -/
def notationsFrom : ℕ → Text → Text → Text
  | _, [], newpath => newpath
  | skip + 1, _ :: rest, newpath => notationsFrom skip rest newpath
  | 0, char :: rest, newpath =>
    if char = pathSeparator then
      if 1 = dotCount 0 rest then
        notationsFrom 1 rest newpath
      else if 2 = dotCount 0 rest then
        -- back to the last separator, which goes too
        notationsFrom 2 rest (SepPath.parent pathSeparator newpath)
      else if newpath = [] ∨ newpath.getLast? ≠ some pathSeparator then
        notationsFrom 0 rest (newpath ++ [pathSeparator])
      else
        notationsFrom 0 rest newpath
    else
      notationsFrom 0 rest (newpath ++ [char])

/-- A separator at the end goes, except from the root. -/
def finished (newpath : Text) : Text :=
  if 1 < newpath.length ∧ newpath.getLast? = some pathSeparator then
    newpath.dropLast
  else if newpath = [] then
    [pathSeparator]
  else
    newpath

/-- `updatePathNotations` up to the check that the path it has built is a directory. -/
def updatePathNotations (path : Text) : Text := finished (notationsFrom 0 path [])

def joined (names : List Text) : Text :=
  if names = [] then [pathSeparator] else names.flatMap (pathSeparator :: ·)

def resolveComponent (names : List Text) (component : Text) : List Text :=
  if component = [] ∨ component = [charDot] then
    names
  else if component = [charDot, charDot] then
    names.dropLast
  else
    names ++ [component]

def canonicalForm (path : Text) : Text :=
  joined ((path.splitOn pathSeparator).foldl resolveComponent [])

/-- A component that stays. -/
structure IsName (name : Text) : Prop where
  nonempty : name ≠ []
  dot : name ≠ [charDot]
  dots : name ≠ [charDot, charDot]
  inside : pathSeparator ∉ name

structure Normalizes (path : Text) : Prop where
  canonical : updatePathNotations path = canonicalForm path
  idempotent : updatePathNotations (updatePathNotations path) = updatePathNotations path
  clean : ∃ names, (∀ name ∈ names, IsName name) ∧ updatePathNotations path = joined names

/-- The names a path has in its canonical form, whether a separator is open behind the
last one, and how many of the `..` so far are owed. -/
structure Debt where
  depth : ℕ
  behind : Bool
  owed : ℕ

def Debt.next (debt : Debt) (component : Text) : Debt :=
  if component = [] then
    { debt with behind := true }
  else if component = [charDot] then
    debt
  else if component = [charDot, charDot] then
    if debt.depth = 0 then
      { debt with behind := false, owed := if debt.behind then debt.owed else debt.owed - 1 }
    else
      { depth := debt.depth - 1
        behind := false
        owed := if debt.behind then debt.owed + 1 else debt.owed }
  else
    { debt with depth := debt.depth + 1, behind := false }

/-- The `..` of a path that are owed at its end. -/
def owedNotations (path : Text) : ℕ :=
  ((path.splitOn pathSeparator).tail.foldl Debt.next ⟨0, false, 0⟩).owed

/-- The names in the buffer, and whether a separator is open behind them. -/
structure Buffer where
  names : List Text
  behind : Bool

def Buffer.newpath (buffer : Buffer) : Text :=
  buffer.names.flatMap (pathSeparator :: ·) ++ if buffer.behind then [pathSeparator] else []

def Buffer.next (buffer : Buffer) (component : Text) : Buffer :=
  if component = [] then
    { buffer with behind := true }
  else if component = [charDot] then
    buffer
  else if component = [charDot, charDot] then
    ⟨if buffer.behind then buffer.names else buffer.names.dropLast, false⟩
  else
    ⟨buffer.names ++ [component], false⟩

variable {buffer : Buffer} {component rest : Text} {names components : List Text}

theorem newpath_push (names : List Text) (name : Text) :
    (⟨names ++ [name], false⟩ : Buffer).newpath = (⟨names, true⟩ : Buffer).newpath ++ name := by
  simp [Buffer.newpath]

/-- The dots of a component count when it is nothing else. -/
theorem dotCount_append (hcomponent : pathSeparator ∉ component)
    (hrest : ∀ char ∈ rest.head?, char = pathSeparator) (dotcount : ℕ) :
    dotCount dotcount (component ++ rest) =
      if ∀ char ∈ component, char = charDot then dotcount + component.length else 0 := by
  induction component generalizing dotcount with
  | nil =>
    cases rest with
    | nil => simp [dotCount]
    | cons char rest =>
      obtain rfl := hrest char rfl
      simp [dotCount, show pathSeparator ≠ charDot by decide]
  | cons char component ih =>
    rw [mem_cons, not_or] at hcomponent
    rw [cons_append, dotCount, ih hcomponent.2]
    by_cases hdot : char = charDot
    · simp [hdot, add_assoc, add_comm 1]
    · simp [hdot, Ne.symm hcomponent.1]

theorem eq_of_dotCount (hcomponent : pathSeparator ∉ component)
    (hrest : ∀ char ∈ rest.head?, char = pathSeparator) {count : ℕ} (hcount : count ≠ 0) :
    count = dotCount 0 (component ++ rest) ↔ component = replicate count charDot := by
  rw [dotCount_append hcomponent hrest, eq_replicate_iff]
  split_ifs with hdots
  · rw [zero_add]
    exact ⟨fun hlength => ⟨hlength.symm, hdots⟩, fun hboth => hboth.1.symm⟩
  · exact ⟨fun hzero => absurd hzero hcount, fun hboth => absurd hboth.2 hdots⟩

theorem notationsFrom_append (hcomponent : pathSeparator ∉ component)
    (rest newpath : Text) :
    notationsFrom 0 (component ++ rest) newpath = notationsFrom 0 rest (newpath ++ component) := by
  induction component generalizing newpath with
  | nil => simp
  | cons char component ih =>
    rw [mem_cons, not_or] at hcomponent
    rw [cons_append, notationsFrom, if_neg (Ne.symm hcomponent.1), ih hcomponent.2, append_assoc]
    rfl

section

variable (hnames : ∀ name ∈ buffer.names, IsName name)

include hnames

theorem getLast_newpath : buffer.newpath.getLast? = some pathSeparator ↔ buffer.behind = true := by
  obtain ⟨names, behind⟩ := buffer
  cases behind with
  | true => simp [Buffer.newpath]
  | false =>
    rcases eq_nil_or_concat' names with rfl | ⟨front, name, rfl⟩
    · simp [Buffer.newpath]
    · have hname : IsName name := hnames name (by simp)
      have hlast : (⟨front ++ [name], false⟩ : Buffer).newpath.getLast? = name.getLast? := by
        rw [newpath_push, getLast?_append_of_ne_nil _ hname.nonempty]
      simp only [hlast, Bool.false_eq_true, iff_false]
      exact fun hsep => hname.inside (mem_of_getLast? hsep)

theorem parent_newpath :
    SepPath.parent pathSeparator buffer.newpath = (buffer.next [charDot, charDot]).newpath := by
  obtain ⟨names, behind⟩ := buffer
  cases behind with
  | true => simpa [Buffer.newpath, Buffer.next] using SepPath.parent_append (by simp) _
  | false =>
    rcases eq_nil_or_concat' names with rfl | ⟨front, name, rfl⟩
    · rfl
    · have hname : IsName name := hnames name (by simp)
      simpa [Buffer.newpath, Buffer.next] using SepPath.parent_append hname.inside _

theorem notationsFrom_component (hcomponent : pathSeparator ∉ component)
    (hrest : ∀ char ∈ rest.head?, char = pathSeparator) :
    notationsFrom 0 (pathSeparator :: (component ++ rest)) buffer.newpath =
      notationsFrom 0 rest (buffer.next component).newpath := by
  rw [notationsFrom, if_pos rfl]
  split_ifs with hdot hdots hclosed
  · obtain rfl := (eq_of_dotCount hcomponent hrest (by decide)).mp hdot
    rfl
  · obtain rfl := (eq_of_dotCount hcomponent hrest (by decide)).mp hdots
    rw [parent_newpath hnames]
    rfl
  all_goals
    rw [eq_of_dotCount hcomponent hrest (by decide)] at hdot hdots
    change component ≠ [charDot] at hdot
    change component ≠ [charDot, charDot] at hdots
    have hnext : (buffer.next component).newpath =
        (⟨buffer.names, true⟩ : Buffer).newpath ++ component := by
      by_cases hempty : component = []
      · simp [Buffer.next, hempty]
      · rw [Buffer.next, if_neg hempty, if_neg hdot, if_neg hdots, newpath_push]
    rw [notationsFrom_append hcomponent, hnext]
  · have hbehind : buffer.behind = false := by
      rw [← Bool.not_eq_true, ← getLast_newpath hnames]
      rcases hclosed with hnil | hlast
      · simp [hnil]
      · exact hlast
    simp [Buffer.newpath, hbehind]
  · obtain ⟨-, hlast⟩ := not_or.mp hclosed
    rw [not_ne_iff, getLast_newpath hnames] at hlast
    rw [← hlast]

end

theorem isName_next (hcomponent : pathSeparator ∉ component)
    (hnames : ∀ name ∈ buffer.names, IsName name) :
    ∀ name ∈ (buffer.next component).names, IsName name := by
  intro name hname
  rw [Buffer.next] at hname
  split_ifs at hname with hempty hdot hdots hbehind
  · exact hnames name hname
  · exact hnames name hname
  · exact hnames name hname
  · exact hnames name (mem_of_mem_dropLast hname)
  · rcases mem_append.mp hname with hold | hnew
    · exact hnames name hold
    · rw [mem_singleton.mp hnew]
      exact ⟨hempty, hdot, hdots, hcomponent⟩

theorem notationsFrom_components
    (hcomponents : ∀ component ∈ components, pathSeparator ∉ component)
    (hnames : ∀ name ∈ buffer.names, IsName name) :
    notationsFrom 0 (components.flatMap (pathSeparator :: ·)) buffer.newpath =
        (components.foldl Buffer.next buffer).newpath ∧
      ∀ name ∈ (components.foldl Buffer.next buffer).names, IsName name := by
  induction components generalizing buffer with
  | nil => exact ⟨rfl, hnames⟩
  | cons component components ih =>
    rw [forall_mem_cons] at hcomponents
    have hrest : ∀ char ∈ (components.flatMap (pathSeparator :: ·)).head?,
        char = pathSeparator := by
      cases components <;> simp
    rw [flatMap_cons, cons_append, notationsFrom_component hnames hcomponents.1 hrest]
    exact ih hcomponents.2 (isName_next hcomponents.1 hnames)

theorem finished_newpath (hnames : ∀ name ∈ buffer.names, IsName name) :
    finished buffer.newpath = joined buffer.names := by
  have hlast := getLast_newpath hnames
  obtain ⟨names, behind⟩ := buffer
  cases names with
  | nil => cases behind <;> rfl
  | cons name names =>
    cases behind with
    | true =>
      have hlong : 1 < (Buffer.newpath ⟨name :: names, true⟩).length := by
        simp only [Buffer.newpath, flatMap_cons, length_append, length_cons, if_true]
        omega
      rw [finished, if_pos ⟨hlong, hlast.mpr rfl⟩]
      simp only [Buffer.newpath, if_true, dropLast_concat]
      rfl
    | false =>
      rw [finished, if_neg fun hopen => Bool.false_ne_true (hlast.mp hopen.2)]
      simp [joined, Buffer.newpath]

theorem updatePathNotations_components
    (hcomponents : ∀ component ∈ components, pathSeparator ∉ component) :
    updatePathNotations (components.flatMap (pathSeparator :: ·)) =
        joined (components.foldl Buffer.next ⟨[], false⟩).names ∧
      ∀ name ∈ (components.foldl Buffer.next ⟨[], false⟩).names, IsName name := by
  obtain ⟨hrun, hnames⟩ := notationsFrom_components hcomponents
    (show ∀ name ∈ (⟨[], false⟩ : Buffer).names, IsName name by simp)
  refine ⟨?_, hnames⟩
  rw [← finished_newpath hnames, ← hrun]
  rfl

theorem foldl_next_names (hnames : ∀ name ∈ names, IsName name)
    (front : List Text) : names.foldl Buffer.next ⟨front, false⟩ = ⟨front ++ names, false⟩ := by
  induction names generalizing front with
  | nil => simp
  | cons name names ih =>
    rw [forall_mem_cons] at hnames
    obtain ⟨⟨hempty, hdot, hdots, -⟩, hrest⟩ := hnames
    rw [foldl_cons, Buffer.next, if_neg hempty, if_neg hdot, if_neg hdots, ih hrest, append_assoc]
    rfl

/-- A path in canonical form stays as it is. -/
theorem updatePathNotations_joined (hnames : ∀ name ∈ names, IsName name) :
    updatePathNotations (joined names) = joined names := by
  by_cases hroot : names = []
  · rw [hroot]
    rfl
  · obtain ⟨hrun, -⟩ := updatePathNotations_components fun name hname => (hnames name hname).inside
    rw [foldl_next_names hnames] at hrun
    conv_lhs => rw [joined, if_neg hroot]
    exact hrun

theorem splitOn_components (rest : Text) :
    (rest.splitOn pathSeparator).flatMap (pathSeparator :: ·) = pathSeparator :: rest ∧
      ∀ component ∈ rest.splitOn pathSeparator, pathSeparator ∉ component := by
  refine ⟨?_, fun component hcomponent hmem => beq_eq_false_iff_ne.mp
    (Occurrence.of_mem_splitOnP _ rest component hcomponent _ hmem).2 rfl⟩
  induction rest with
  | nil => rfl
  | cons char rest ih =>
    rw [splitOn] at ih ⊢
    rw [splitOnP_cons_eq_if_modifyHead]
    split_ifs with hchar
    · rw [flatMap_cons, ih, beq_iff_eq.mp hchar]
      rfl
    · obtain ⟨first, more, hsplit⟩ := exists_cons_of_ne_nil (splitOnP_ne_nil _ rest)
      rw [hsplit, flatMap_cons, cons_append, cons.injEq] at ih
      simp [hsplit, ih.2]

/-- The buffer holds the names of the canonical form and as many more as are owed. -/
structure Follows (buffer : Buffer) (names : List Text) (debt : Debt) : Prop where
  behind : debt.behind = buffer.behind
  depth : debt.depth = names.length
  more : buffer.names.length = names.length + debt.owed
  sublist : names.Sublist buffer.names

theorem follows_next {debt : Debt}
    (hfollows : Follows buffer names debt) {component : Text} :
    Follows (buffer.next component) (resolveComponent names component) (debt.next component) := by
  obtain ⟨kept, behind⟩ := buffer
  obtain ⟨depth, _, owed⟩ := debt
  obtain ⟨hbehind, rfl, hmore, hsublist⟩ := hfollows
  dsimp only at hbehind hmore hsublist
  subst hbehind
  by_cases hempty : component = []
  · subst hempty
    exact ⟨rfl, rfl, hmore, hsublist⟩
  by_cases hdot : component = [charDot]
  · subst hdot
    exact ⟨rfl, rfl, hmore, hsublist⟩
  by_cases hdots : component = [charDot, charDot]
  · subst hdots
    have hboth : names.dropLast.Sublist kept.dropLast := by
      simpa using (reverse_sublist.mpr hsublist).tail
    simp only [Buffer.next, resolveComponent, Debt.next, reduceCtorEq, cons.injEq,
      and_false, or_self, if_false, if_true]
    split_ifs with hbehind hroot hroot
    · exact ⟨rfl, by simp [hroot], by simp [hroot, hmore], (dropLast_sublist _).trans hsublist⟩
    · refine ⟨rfl, by simp, ?_, (dropLast_sublist _).trans hsublist⟩
      simp only [length_dropLast]
      omega
    · refine ⟨rfl, by simp [hroot], ?_, hboth⟩
      simp only [length_dropLast]
      omega
    · refine ⟨rfl, by simp, ?_, hboth⟩
      simp only [length_dropLast]
      omega
  · simp only [Buffer.next, resolveComponent, Debt.next, hempty, hdot, hdots, or_self, if_false]
    refine ⟨rfl, by simp, ?_, hsublist.append (.refl _)⟩
    simp only [length_append, length_singleton]
    omega

theorem follows_components {debt : Debt}
    (hfollows : Follows buffer names debt) (components : List Text) :
    Follows (components.foldl Buffer.next buffer) (components.foldl resolveComponent names)
      (components.foldl Debt.next debt) := by
  induction components generalizing buffer names debt with
  | nil => exact hfollows
  | cons component components ih => exact ih (follows_next hfollows)

theorem count_joined (hnames : ∀ name ∈ names, IsName name) :
    (joined names).count pathSeparator = max 1 names.length := by
  have hcount : (names.flatMap (pathSeparator :: ·)).count pathSeparator = names.length := by
    induction names with
    | nil => rfl
    | cons name names ih =>
      rw [forall_mem_cons] at hnames
      rw [flatMap_cons, count_append, count_cons_self,
        count_eq_zero_of_not_mem hnames.1.inside, ih hnames.2, length_cons]
      omega
  by_cases hroot : names = []
  · rw [hroot]
    rfl
  · have := length_pos_iff.mpr hroot
    rw [joined, if_neg hroot]
    omega

theorem joined_ne_of_sublist {kept : List Text} (hkept : ∀ name ∈ kept, IsName name)
    (hsublist : names.Sublist kept) (hfewer : names.length < kept.length) :
    joined kept ≠ joined names := by
  intro hsame
  have hcount := congrArg (count pathSeparator) hsame
  rw [count_joined hkept, count_joined fun name hname => hkept name (hsublist.subset hname)]
    at hcount
  obtain rfl : names = [] := length_eq_zero_iff.mp (by omega)
  obtain ⟨name, rfl⟩ := length_eq_one_iff.mp (show kept.length = 1 by omega)
  have hempty : pathSeparator :: (name ++ []) = [pathSeparator] := hsame
  simp only [append_nil, cons.injEq, true_and] at hempty
  exact (hkept name (by simp)).nonempty hempty

/-- What an absolute path becomes, with the names it keeps in its canonical form. -/
theorem exists_kept {path : Text} (habsolute : path.head? = some pathSeparator) :
    ∃ kept names, (∀ name ∈ kept, IsName name) ∧ names.Sublist kept ∧
      kept.length = names.length + owedNotations path ∧
      updatePathNotations path = joined kept ∧ canonicalForm path = joined names := by
  obtain ⟨rest, rfl⟩ := head?_eq_some_iff.mp habsolute
  obtain ⟨hjoin, hfree⟩ := splitOn_components rest
  obtain ⟨hrun, hnames⟩ := updatePathNotations_components hfree
  have hstart : Follows ⟨[], false⟩ [] ⟨0, false, 0⟩ := ⟨rfl, rfl, rfl, .refl _⟩
  have hfollows := follows_components hstart (rest.splitOn pathSeparator)
  rw [hjoin] at hrun
  exact ⟨_, _, hnames, hfollows.sublist, hfollows.more, hrun, rfl⟩

theorem eq_canonicalForm_iff {path : Text} (habsolute : path.head? = some pathSeparator) :
    updatePathNotations path = canonicalForm path ↔ owedNotations path = 0 := by
  obtain ⟨kept, names, hkept, hsublist, hmore, hrun, hcanonical⟩ := exists_kept habsolute
  rw [hrun, hcanonical]
  constructor
  · intro hsame
    by_contra hpositive
    exact joined_ne_of_sublist hkept hsublist (by omega) hsame
  · intro hzero
    rw [hsublist.eq_of_length (by omega)]

/-- An absolute path is brought to its canonical form exactly when no `..` of it is owed:
each that stands behind a doubled separator, with a name left to remove, has been made up
for by one met at the root. -/
theorem normalizes_iff {path : Text} (habsolute : path.head? = some pathSeparator) :
    Normalizes path ↔ owedNotations path = 0 := by
  rw [← eq_canonicalForm_iff habsolute]
  refine ⟨fun hnormal => hnormal.canonical, fun hcanonical => ?_⟩
  obtain ⟨kept, -, hkept, -, -, hrun, -⟩ := exists_kept habsolute
  refine ⟨hcanonical, ?_, kept, hkept, hrun⟩
  rw [hrun, updatePathNotations_joined hkept]

theorem normalizes_owed_madeUp :
    (text "/a//../../b/./c/..").head? = some pathSeparator ∧
      owedNotations (text "/a//../../b/./c/..") = 0 ∧ Normalizes (text "/a//../../b/./c/..") :=
  ⟨by decide, by decide, (normalizes_iff (by decide)).mpr (by decide)⟩

/-- A doubled separator in front of `..` keeps the name. -/
theorem doubled_separator_keeps :
    updatePathNotations (text "/a//..") = text "/a" ∧ canonicalForm (text "/a//..") = text "/" ∧
      ¬ Normalizes (text "/a//..") := by
  refine ⟨by decide, by decide, fun hnormal => ?_⟩
  exact absurd hnormal.canonical (by decide)

end PdiStack.PathNotations
