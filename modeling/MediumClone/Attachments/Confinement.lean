import MediumClone.Attachments.Storage

/-!
# Attachments — Confinement

A root is normal: its text is that of plain segments (`normalize_plain`, `resolve_eq_pathOf`).  So
what is resolved below it is the root with one more segment, or it is the root or its parent
(`resolve_of_noSlash`), which `resolvePath` rejects (`resolvePath_ok_iff`).
-/

namespace MediumClone.Attachments
open Js

/-! ### Segments -/

/-- A segment that names an entry of a directory. -/
structure Plain (segment : Str) : Prop where
  nonempty : segment ≠ []
  notDot : segment ≠ ['.']
  notDotDot : segment ≠ ['.', '.']
  noSlash : '/' ∉ segment

/-- One segment further. -/
def walk (segments : List Str) (segment : Str) : List Str :=
  if segment = [] ∨ segment = ['.'] then segments
  else if segment = ['.', '.'] then segments.dropLast
  else segments ++ [segment]

variable {segments l : List Str} {segment key path root : Str}

theorem normalize_eq : normalize path = (path.splitOn '/').foldl walk [] := rfl

theorem walk_of_plain (h : Plain segment) : walk segments segment = segments ++ [segment] := by
  rw [walk, if_neg (by simp [h.nonempty, h.notDot]), if_neg h.notDotDot]

theorem walk_plain (h : ∀ s ∈ segments, Plain s) (hslash : '/' ∉ segment) :
    ∀ s ∈ walk segments segment, Plain s := by
  intro s hs
  rw [walk] at hs
  split at hs
  · exact h s hs
  · rename_i hne
    rw [not_or] at hne
    split at hs
    · exact h s (List.dropLast_subset _ hs)
    · rename_i hdots
      rcases List.mem_append.mp hs with hs | hs
      · exact h s hs
      · cases List.mem_singleton.mp hs
        exact ⟨hne.1, hne.2, hdots, hslash⟩

theorem foldl_walk_plain (h : ∀ s ∈ segments, Plain s) (hl : ∀ s ∈ l, '/' ∉ s) :
    ∀ s ∈ l.foldl walk segments, Plain s := by
  induction l generalizing segments with
  | nil => exact h
  | cons s l ih =>
      obtain ⟨hs, hl⟩ := List.forall_mem_cons.mp hl
      exact ih (walk_plain h hs) hl

theorem foldl_walk_of_plain (hl : ∀ s ∈ l, Plain s) : l.foldl walk segments = segments ++ l := by
  induction l generalizing segments with
  | nil => simp
  | cons s l ih =>
      obtain ⟨hs, hl⟩ := List.forall_mem_cons.mp hl
      rw [List.foldl_cons, walk_of_plain hs, ih hl, List.append_assoc, List.singleton_append]

theorem slash_notMem_of_mem_splitOn (path : Str) : ∀ s ∈ path.splitOn '/', '/' ∉ s := by
  induction path with
  | nil => simp
  | cons c path ih =>
      rw [List.splitOn_cons_eq_if_modifyHead]
      obtain ⟨s, l, hsplit⟩ := List.exists_cons_of_ne_nil (List.splitOn_ne_nil '/' path)
      rw [hsplit] at ih ⊢
      by_cases hc : c = '/'
      · rw [if_pos (beq_iff_eq.mpr hc)]
        exact List.forall_mem_cons.mpr ⟨List.not_mem_nil, ih⟩
      · obtain ⟨hs, hl⟩ := List.forall_mem_cons.mp ih
        rw [if_neg (by simpa using hc), List.modifyHead_cons]
        refine List.forall_mem_cons.mpr ⟨?_, hl⟩
        simp [hs, Ne.symm hc]

theorem normalize_plain (path : Str) : ∀ s ∈ normalize path, Plain s :=
  foldl_walk_plain (fun _ h => absurd h List.not_mem_nil) (slash_notMem_of_mem_splitOn path)

/-! ### Normal paths -/

/-- The absolute path of some segments. -/
def pathOf (segments : List Str) : Str := '/' :: ['/'].intercalate segments

theorem splitOn_pathOf (h : ∀ s ∈ segments, Plain s) (hne : segments ≠ []) :
    (pathOf segments).splitOn '/' = [] :: segments := by
  rw [pathOf, List.splitOn_cons_eq_if_modifyHead, if_pos (beq_self_eq_true '/'),
    List.splitOn_intercalate '/' (fun s hs => (h s hs).noSlash) hne]

theorem pathOf_append (hne : segments ≠ []) :
    pathOf (segments ++ [segment]) = pathOf segments ++ '/' :: segment := by
  rw [pathOf, pathOf, List.cons_append]
  induction segments with
  | nil => exact absurd rfl hne
  | cons s segments ih =>
      cases segments with
      | nil => simp [List.intercalate]
      | cons s' segments =>
          have := ih (List.cons_ne_nil _ _)
          simp only [List.cons_append, List.intercalate_cons_cons, List.cons.injEq, true_and,
            List.append_assoc] at this ⊢
          rw [this]

theorem resolve_eq_pathOf (base path : Str) : ∃ segments, (∀ s ∈ segments, Plain s) ∧
    resolve base path = pathOf segments :=
  ⟨_, normalize_plain _, rfl⟩

/-- What a key without a separator is below a normal path. -/
theorem resolve_of_noSlash (h : ∀ s ∈ segments, Plain s) (hne : segments ≠ []) (hkey : '/' ∉ key) :
    resolve (pathOf segments) key = pathOf (walk segments key) := by
  have hhead : key.head? ≠ some '/' := fun hhead => hkey (List.mem_of_mem_head? hhead)
  rw [resolve, if_neg hhead, normalize_eq, List.splitOn_append_cons_self, splitOn_pathOf h hne,
    List.splitOn_eq_singleton hkey, List.foldl_append, List.foldl_cons]
  change pathOf (walk (segments.foldl walk []) key) = _
  rw [foldl_walk_of_plain h, List.nil_append]

theorem length_pathOf_dropLast_le (segments : List Str) :
    (pathOf segments.dropLast).length ≤ (pathOf segments).length := by
  rcases List.eq_nil_or_concat segments with rfl | ⟨init, last, rfl⟩
  · exact le_rfl
  · rw [List.concat_eq_append, List.dropLast_concat]
    cases init with
    | nil => simp [pathOf]
    | cons s init =>
        rw [pathOf_append (List.cons_ne_nil _ _), List.length_append]
        exact Nat.le_add_right ..

/-! ### Keys -/

/-- The keys of files. -/
structure Accepted (key : Str) : Prop where
  nonempty : key ≠ []
  noSlash : '/' ∉ key
  notDot : key ≠ ['.']
  notDotDot : key ≠ ['.', '.']

theorem Accepted.plain (h : Accepted key) : Plain key :=
  ⟨h.nonempty, h.notDot, h.notDotDot, h.noSlash⟩

theorem basename_eq_self_iff : basename key = key ↔ '/' ∉ key := by
  constructor
  · intro h hmem
    rw [← h, basename, List.mem_reverse] at hmem
    have := List.mem_takeWhile_imp hmem
    simp at this
  · intro h
    have hreverse : ∀ c ∈ key.reverse, c ≠ '/' := by
      rintro c hc rfl
      exact h (List.mem_reverse.mp hc)
    have hdrop : key.reverse.dropWhile (· == '/') = key.reverse := by
      rw [List.dropWhile_eq_self_iff]
      intro hlt
      simpa using hreverse _ (List.getElem_mem hlt)
    have htake : key.reverse.takeWhile (· != '/') = key.reverse := by
      rw [List.takeWhile_eq_self_iff]
      intro c hc
      simpa using hreverse c hc
    rw [basename, hdrop, htake, List.reverse_reverse]

variable {storage : PrivateAttachmentStorage}

theorem resolvePath_of_accepted (hroot : storage.root = pathOf segments)
    (h : ∀ s ∈ segments, Plain s) (hne : segments ≠ []) (hkey : Accepted key) :
    storage.resolvePath key = .ok (storage.root ++ '/' :: key) := by
  have hresolve : resolve storage.root key = storage.root ++ '/' :: key := by
    rw [hroot, resolve_of_noSlash h hne hkey.noSlash, walk_of_plain hkey.plain, pathOf_append hne]
  have hbase : ¬ (key = [] ∨ basename key ≠ key) := by
    rw [not_or, not_not, basename_eq_self_iff]
    exact ⟨hkey.nonempty, hkey.noSlash⟩
  have hprefix : storage.root ++ ['/'] <+: storage.root ++ '/' :: key := ⟨key, by simp⟩
  rw [PrivateAttachmentStorage.resolvePath, if_neg hbase, hresolve, if_neg (not_not.mpr hprefix)]

theorem resolvePath_of_not (hroot : storage.root = pathOf segments)
    (h : ∀ s ∈ segments, Plain s) (hne : segments ≠ []) (hkey : ¬ Accepted key) :
    storage.resolvePath key = .error {} := by
  rw [PrivateAttachmentStorage.resolvePath]
  by_cases hbase : key = [] ∨ basename key ≠ key
  · rw [if_pos hbase]
  · rw [if_neg hbase]
    rw [not_or, not_not, basename_eq_self_iff] at hbase
    refine if_pos fun hprefix => ?_
    -- `.` and `..` are left, which resolve to paths no longer than the root
    have hle : (resolve storage.root key).length ≤ storage.root.length := by
      rw [hroot, resolve_of_noSlash h hne hbase.2, walk]
      split
      · exact le_rfl
      · rename_i hdot
        rw [if_pos]
        · exact length_pathOf_dropLast_le segments
        · by_contra hdots
          exact hkey ⟨hbase.1, hbase.2, fun heq => hdot (.inr heq), hdots⟩
    have hlt := hprefix.length_le
    rw [List.length_append, List.length_singleton] at hlt
    omega

theorem create_root (cwd : Str) (rootPath : Option Str)
    (hroot : (PrivateAttachmentStorage.create cwd rootPath).root ≠ ['/']) :
    ∃ segments, (PrivateAttachmentStorage.create cwd rootPath).root = pathOf segments ∧
      (∀ s ∈ segments, Plain s) ∧ segments ≠ [] := by
  obtain ⟨segments, h, heq⟩ := resolve_eq_pathOf cwd
    (if trim (rootPath.getD DEFAULT_ROOT) = [] then DEFAULT_ROOT
      else trim (rootPath.getD DEFAULT_ROOT))
  refine ⟨segments, heq, h, ?_⟩
  rintro rfl
  exact hroot heq

/-! ### Operations -/

theorem call_of_operation {operation : StorageOperation} {call : FileSystemCall}
    (hcall : call ∈ storage.calls key operation) :
    call = .mkdir storage.root ∨ storage.resolvePath key = .ok call.path := by
  have honPath : ∀ f : Str → FileSystemCall, (∀ path, (f path).path = path) →
      call ∈ PrivateAttachmentStorage.calls.onPath storage key f →
      storage.resolvePath key = .ok call.path := by
    intro f hf hmem
    rw [PrivateAttachmentStorage.calls.onPath] at hmem
    split at hmem
    · cases hmem
    · rename_i path hpath
      rw [List.mem_singleton.mp hmem, hf, hpath]
  cases operation with
  | write content =>
      rcases List.mem_cons.mp hcall with rfl | hcall
      · exact .inl rfl
      · exact .inr (honPath _ (fun _ => rfl) hcall)
  | read => exact .inr (honPath _ (fun _ => rfl) hcall)
  | remove => exact .inr (honPath _ (fun _ => rfl) hcall)

/-- **Storage confinement.**  Below a root other than `/`, exactly the accepted keys have a path, a
direct child of the root, and no two have the same.  An operation makes calls for the path of its
key, and for no other path but to create the root. -/
theorem storage_confined (cwd : Str) (rootPath : Option Str)
    (hroot : (PrivateAttachmentStorage.create cwd rootPath).root ≠ ['/']) :
    let storage := PrivateAttachmentStorage.create cwd rootPath
    (∀ key path, storage.resolvePath key = .ok path ↔
      Accepted key ∧ path = storage.root ++ '/' :: key) ∧
    (∀ key, ¬ Accepted key → storage.resolvePath key = .error {}) ∧
    (∀ key key' path, storage.resolvePath key = .ok path → storage.resolvePath key' = .ok path →
      key = key') ∧
    ∀ key operation, ∀ call ∈ storage.calls key operation, call = .mkdir storage.root ∨
      Accepted key ∧ call.path = storage.root ++ '/' :: key := by
  intro storage
  obtain ⟨segments, heq, h, hne⟩ := create_root cwd rootPath hroot
  have hok : ∀ key path, storage.resolvePath key = .ok path ↔
      Accepted key ∧ path = storage.root ++ '/' :: key := by
    intro key path
    by_cases hkey : Accepted key
    · rw [resolvePath_of_accepted heq h hne hkey, Except.ok.injEq]
      exact ⟨fun hpath => ⟨hkey, hpath.symm⟩, fun hpath => hpath.2.symm⟩
    · rw [resolvePath_of_not heq h hne hkey]
      exact ⟨nofun, fun hpath => absurd hpath.1 hkey⟩
  refine ⟨hok, fun key hkey => resolvePath_of_not heq h hne hkey, ?_, ?_⟩
  · intro key key' path hkey hkey'
    have hsame := ((hok key path).mp hkey).2.symm.trans ((hok key' path).mp hkey').2
    exact (List.cons.inj (List.append_cancel_left hsame)).2
  · intro key operation call hcall
    exact (call_of_operation hcall).imp_right (hok key _).mp

theorem storage_confined_default :
    (PrivateAttachmentStorage.create ['/'] none).root = "/storage/private".toList ∧
    (PrivateAttachmentStorage.create ['/'] none).resolvePath "a.png".toList =
      .ok "/storage/private/a.png".toList ∧
    ¬ Accepted "../a.png".toList ∧
    (PrivateAttachmentStorage.create ['/'] none).resolvePath "../a.png".toList = .error {} := by
  have hslash : ¬ Accepted "../a.png".toList := fun h => h.noSlash (by simp)
  obtain ⟨hok, herror, -⟩ := storage_confined ['/'] none (by decide +kernel)
  exact ⟨by decide +kernel, (hok _ _).mpr ⟨⟨by decide, by decide, by decide, by decide⟩,
    by decide +kernel⟩, hslash, herror _ hslash⟩

end MediumClone.Attachments
