import Mathlib

/-!
# Paths with a separator

A path is a list in which one letter separates the names.  Its parent is what stands in
front of the last separator.  A set of paths that is closed under parents is closed under
everything a path lies within, and a part of it can be moved to another place without
losing that.
-/

namespace PdiStack.SepPath

open List
variable {α : Type*} [DecidableEq α] (sep : α)

/-- The part in front of the last separator, empty without one. -/
def parent (path : List α) : List α := ((path.reverse.dropWhile (· ≠ sep)).drop 1).reverse

/-- A path lies within another one when it is that path or continues it behind a
separator. -/
def Within (dir path : List α) : Prop := path = dir ∨ dir ++ [sep] <+: path

instance (dir path : List α) : Decidable (Within sep dir path) :=
  inferInstanceAs (Decidable (_ ∨ _))

variable {sep}

theorem parent_append {base : List α} (hbase : sep ∉ base) (dir : List α) :
    parent sep (dir ++ sep :: base) = dir := by
  have hskip : ∀ letter ∈ base.reverse, decide (letter ≠ sep) = true := by
    intro letter hletter
    refine decide_eq_true fun heq => hbase ?_
    rw [← heq]
    exact mem_reverse.mp hletter
  rw [parent, reverse_append, reverse_cons, append_assoc, dropWhile_append_of_pos hskip]
  simp

variable {dir path source target : List α}

theorem parent_of_notMem (hpath : sep ∉ path) : parent sep path = [] := by
  have hskip : path.reverse.dropWhile (· ≠ sep) = [] := by
    rw [dropWhile_eq_nil_iff]
    intro letter hletter
    refine decide_eq_true fun heq => hpath ?_
    rw [← heq]
    exact mem_reverse.mp hletter
  rw [parent, hskip]
  rfl

/-- A path has no separator or is its parent, the last separator and a name. -/
theorem notMem_or_eq_parent (sep : α) (path : List α) :
    sep ∉ path ∨ ∃ base, sep ∉ base ∧ path = parent sep path ++ sep :: base := by
  by_cases hpath : sep ∈ path
  · obtain ⟨before, after, hsplit, hfirst⟩ := eq_append_cons_of_mem (mem_reverse.mpr hpath)
    have hbase : sep ∉ before.reverse := fun hmem => hfirst (mem_reverse.mp hmem)
    have hwhole : path = after.reverse ++ sep :: before.reverse := by
      rw [← path.reverse_reverse, hsplit]
      simp
    refine .inr ⟨before.reverse, hbase, ?_⟩
    rw [hwhole, parent_append hbase]
  · exact .inl hpath

theorem eq_parent_of_ne_nil (hparent : parent sep path ≠ []) :
    ∃ base, path = parent sep path ++ sep :: base := by
  rcases notMem_or_eq_parent sep path with hnone | ⟨base, -, hpath⟩
  · exact absurd (parent_of_notMem hnone) hparent
  · exact ⟨base, hpath⟩

omit [DecidableEq α] in
theorem within_append (dir rest : List α) : Within sep dir (dir ++ sep :: rest) :=
  .inr ⟨rest, by simp⟩

omit [DecidableEq α] in
theorem within_iff : Within sep dir path ↔ path = dir ∨ ∃ rest, path = dir ++ sep :: rest := by
  refine or_congr_right ⟨?_, ?_⟩
  · rintro ⟨rest, hrest⟩
    exact ⟨rest, by rw [← hrest]; simp⟩
  · rintro ⟨rest, hrest⟩
    exact ⟨rest, by rw [hrest]; simp⟩

omit [DecidableEq α] in
theorem not_within_nil (hdir : dir ≠ []) : ¬ Within sep dir [] := by
  rw [within_iff]
  rintro (hnil | ⟨rest, hrest⟩)
  · exact hdir hnil.symm
  · simp at hrest

omit [DecidableEq α] in
theorem within_trans {outer : List α} (houter : Within sep outer dir) (hdir : Within sep dir path) :
    Within sep outer path := by
  rw [within_iff] at houter hdir ⊢
  obtain rfl | ⟨rest, rfl⟩ := hdir
  · exact houter
  · obtain rfl | ⟨middle, rfl⟩ := houter
    · exact .inr ⟨rest, rfl⟩
    · exact .inr ⟨middle ++ sep :: rest, by simp⟩

omit [DecidableEq α] in
/-- Two paths a third one lies within lie one within the other. -/
theorem within_total {first second : List α} (hfirst : Within sep first path)
    (hsecond : Within sep second path) : Within sep first second ∨ Within sep second first := by
  obtain rfl | hfirst := hfirst
  · exact .inr hsecond
  obtain rfl | hsecond := hsecond
  · exact .inl (.inr hfirst)
  · rcases prefix_or_prefix_of_prefix hfirst hsecond with hshort | hshort
    · rcases prefix_concat_iff.mp hshort with heq | hlong
      · exact .inl (.inl (append_inj_left' heq.symm rfl))
      · exact .inl (.inr hlong)
    · rcases prefix_concat_iff.mp hshort with heq | hlong
      · exact .inl (.inl (append_inj_left' heq rfl))
      · exact .inr (.inr hlong)

/-- The parent of a path that lies properly within a directory lies within it too. -/
theorem within_parent (hwithin : Within sep dir path) (hne : path ≠ dir) :
    Within sep dir (parent sep path) := by
  obtain ⟨rest, rfl⟩ := (within_iff.mp hwithin).resolve_left hne
  rcases notMem_or_eq_parent sep rest with hbase | ⟨base, hbase, hrest⟩
  · rw [parent_append hbase]
    exact .inl rfl
  · have hwhole : dir ++ sep :: rest = (dir ++ sep :: parent sep rest) ++ sep :: base := by
      conv_lhs => rw [hrest]
      simp
    rw [hwhole, parent_append hbase]
    exact within_append dir _

theorem within_of_parent (hdir : dir ≠ []) (hwithin : Within sep dir (parent sep path)) :
    Within sep dir path := by
  have hparent : parent sep path ≠ [] := by
    intro hnil
    rw [hnil] at hwithin
    exact not_within_nil hdir hwithin
  obtain ⟨base, hpath⟩ := eq_parent_of_ne_nil hparent
  have hlast : Within sep (parent sep path) path := by
    conv_rhs => rw [hpath]
    exact within_append _ _
  exact within_trans hwithin hlast

theorem length_parent_lt (hparent : parent sep path ≠ []) :
    (parent sep path).length < path.length := by
  obtain ⟨base, hpath⟩ := eq_parent_of_ne_nil hparent
  have hlength := congrArg List.length hpath
  simp only [length_append, length_cons] at hlength
  omega

def ParentClosed (sep : α) (paths dirs : Set (List α)) : Prop :=
  ∀ path ∈ paths, parent sep path = [] ∨ parent sep path ∈ dirs

/-- In a set closed under parents, everything a path lies properly within is a
directory. -/
theorem mem_of_within {paths dirs : Set (List α)} (hclosed : ParentClosed sep paths dirs)
    (hdirs : dirs ⊆ paths) {dir path : List α} (hdir : dir ≠ []) (hpath : path ∈ paths)
    (hwithin : Within sep dir path) (hne : path ≠ dir) : dir ∈ dirs := by
  have hparent := within_parent hwithin hne
  rcases hclosed path hpath with hnil | hmem
  · rw [hnil] at hparent
    exact absurd hparent (not_within_nil hdir)
  by_cases hhere : parent sep path = dir
  · rwa [hhere] at hmem
  · have hnonempty : parent sep path ≠ [] := by
      intro hnil
      rw [hnil] at hparent
      exact not_within_nil hdir hparent
    have := length_parent_lt hnonempty
    exact mem_of_within hclosed hdirs hdir (hdirs hmem) hparent hhere
termination_by path.length

/-- The place of a path after what lies within one path has been moved to another. -/
def relocate (sep : α) (source target path : List α) : List α :=
  if Within sep source path then target ++ path.drop source.length else path

theorem relocate_of_not_within (hout : ¬ Within sep source path) :
    relocate sep source target path = path := if_neg hout

theorem relocate_source (source target : List α) : relocate sep source target source = target := by
  rw [relocate, if_pos (.inl rfl)]
  simp

theorem relocate_append (source target rest : List α) :
    relocate sep source target (source ++ sep :: rest) = target ++ sep :: rest := by
  rw [relocate, if_pos (within_append source rest), drop_left]

theorem within_relocate (target : List α) (hwithin : Within sep source path) :
    Within sep target (relocate sep source target path) := by
  obtain rfl | ⟨rest, rfl⟩ := within_iff.mp hwithin
  · rw [relocate_source]
    exact .inl rfl
  · rw [relocate_append]
    exact within_append target rest

/-- Moving commutes with taking parents, except at the path that is moved itself. -/
theorem parent_relocate (hsource : source ≠ []) (hne : path ≠ source) :
    parent sep (relocate sep source target path) =
      relocate sep source target (parent sep path) := by
  by_cases hwithin : Within sep source path
  · obtain ⟨rest, rfl⟩ := (within_iff.mp hwithin).resolve_left hne
    rw [relocate_append]
    rcases notMem_or_eq_parent sep rest with hbase | ⟨base, hbase, hrest⟩
    · rw [parent_append hbase, parent_append hbase, relocate_source]
    · have hwhole : ∀ dir : List α,
          dir ++ sep :: rest = (dir ++ sep :: parent sep rest) ++ sep :: base := by
        intro dir
        conv_lhs => rw [hrest]
        simp
      rw [hwhole, hwhole, parent_append hbase, parent_append hbase, relocate_append]
  · have hparent : ¬ Within sep source (parent sep path) :=
      fun hin => hwithin (within_of_parent hsource hin)
    rw [relocate_of_not_within hwithin, relocate_of_not_within hparent]

/-- Two paths do not get to the same place when nothing was there before. -/
theorem relocate_injective {first second : List α} (hfirst : ¬ Within sep target first)
    (hsecond : ¬ Within sep target second)
    (hsame : relocate sep source target first = relocate sep source target second) :
    first = second := by
  by_cases hin : Within sep source first <;> by_cases hin' : Within sep source second
  · rw [relocate, relocate, if_pos hin, if_pos hin'] at hsame
    have hdrop := append_cancel_left hsame
    have htake : ∀ path : List α, Within sep source path →
        path = source ++ path.drop source.length := by
      intro path hpath
      obtain rfl | ⟨rest, rfl⟩ := within_iff.mp hpath <;> simp
    rw [htake first hin, htake second hin', hdrop]
  · rw [relocate_of_not_within hin'] at hsame
    exact absurd (hsame ▸ within_relocate target hin) hsecond
  · rw [relocate_of_not_within hin] at hsame
    exact absurd (hsame ▸ within_relocate target hin') hfirst
  · rwa [relocate_of_not_within hin, relocate_of_not_within hin'] at hsame

/-- Nothing is left within the source, when neither place lies within the other. -/
theorem not_within_relocate (hinto : ¬ Within sep source target)
    (hover : ¬ Within sep target source) (path : List α) :
    ¬ Within sep source (relocate sep source target path) := by
  by_cases hin : Within sep source path
  · intro hleft
    rcases within_total hleft (within_relocate target hin) with hthere | hthere
    · exact hinto hthere
    · exact hover hthere
  · rwa [relocate_of_not_within hin]

def trim (sep : α) (path : List α) : List α := (path.dropWhile (· = sep)).rdropWhile (· = sep)

def Trimmed (sep : α) (path : List α) : Prop := path.head? ≠ some sep ∧ path.getLast? ≠ some sep

theorem trimmed_trim (sep : α) (path : List α) : Trimmed sep (trim sep path) := by
  constructor
  · intro hhead
    obtain ⟨rest, hrest⟩ := rdropWhile_prefix (· = sep) (path.dropWhile (· = sep))
    have hwhole : (path.dropWhile (· = sep)).head? = some sep := by
      rw [trim] at hhead
      rw [← hrest, head?_append, hhead]
      rfl
    have hfirst := head?_dropWhile_not (· = sep) path
    rw [hwhole] at hfirst
    simp at hfirst
  · intro hlast
    have hne : trim sep path ≠ [] := by
      intro hnil
      rw [hnil] at hlast
      cases hlast
    rw [getLast?_eq_some_getLast hne] at hlast
    exact rdropWhile_last_not _ _ hne (decide_eq_true (Option.some.inj hlast))

theorem trim_of_trimmed (htrimmed : Trimmed sep path) : trim sep path = path := by
  have hfront : path.dropWhile (· = sep) = path := by
    cases path with
    | nil => rfl
    | cons letter rest =>
        refine dropWhile_cons_of_neg fun hletter => htrimmed.1 ?_
        exact congrArg some (of_decide_eq_true hletter)
  rw [trim, hfront, rdropWhile_eq_self_iff]
  intro hne hlast
  refine htrimmed.2 ?_
  rw [getLast?_eq_some_getLast hne]
  exact congrArg some (of_decide_eq_true hlast)

theorem trimmed_relocate (htarget : Trimmed sep target) (hne : target ≠ [])
    (hpath : Trimmed sep path) :
    Trimmed sep (relocate sep source target path) := by
  by_cases hwithin : Within sep source path
  · obtain rfl | ⟨rest, rfl⟩ := within_iff.mp hwithin
    · rwa [relocate_source]
    · rw [relocate_append]
      refine ⟨?_, ?_⟩
      · rw [head?_append_of_ne_nil _ hne]
        exact htarget.1
      · have hlast := hpath.2
        rw [getLast?_append_cons] at hlast ⊢
        exact hlast
  · rwa [relocate_of_not_within hwithin]

end PdiStack.SepPath
