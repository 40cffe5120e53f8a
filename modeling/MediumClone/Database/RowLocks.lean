import MediumClone.Support.Locks

/-!
# Database — RowLocks

The row locks of the transactions that change articles, comments, favorites and avatars, as
programs of the lock machine (`Sys.Locks`).

A `pessimistic_write` read, an `UPDATE` and a `DELETE` take `FOR UPDATE` on the row; an inserted
row takes `FOR KEY SHARE` on the rows its foreign keys name.  `FOR UPDATE` excludes both.
`requests` lists what each transaction locks, in order:

  * a favorite locks the viewer, then the article, then its own row;
  * a new comment locks the article, then, by its foreign keys, the article again and its author;
  * a comment is deleted, and an article updated or deleted, under the article's lock;
  * an avatar upload locks its user, and again by the attachment's foreign key; its clean-up
    deletes attachments, each clean-up in an order of its own.

The rows of an article's comments and favorites are locked only under the article's own lock, so
no one waits for them.  What is left is the order of users and articles, and of the attachments of
each clean-up.  A favorite takes the first two one way round and a new comment the other, so there
is no deadlock as long as these orders, over the transactions that run together, close no cycle
(`acyclic_waits_of_acyclic`); where all clean-ups meet the attachments in one scan order, it is
enough that no one both favorites and comments (`acyclic_precedes`).
-/

namespace MediumClone.Database
open Sys Relation

/-! ### Rows and transactions -/

inductive Row (υ α : Type*) where
  | user (id : υ)
  | article (id : α)
  | comment (article : α) (id : ℕ)
  | favorite (article : α) (user : υ)
  | attachment (id : ℕ)
  deriving DecidableEq

inductive Mode where
  | forKeyShare
  | forUpdate
  deriving DecidableEq

instance : LockMode Mode where
  conflicts
    | .forKeyShare, .forKeyShare => false
    | _, _ => true
  symm m n := by cases m <;> cases n <;> rfl

@[simp] theorem conflicts_forUpdate (m : Mode) : conflicts Mode.forUpdate m = true := by
  cases m <;> rfl

inductive Transaction (υ α : Type*) where
  | favoriteCreate (viewer : υ) (article : α)
  | favoriteDelete (viewer : υ) (article : α)
  | commentCreate (author : υ) (article : α)
  | commentDelete (article : α) (comment : ℕ)
  | articleUpdate (article : α)
  /-- With the favorites and comments that go with the article, in the order of the foreign keys'
  cascade.  Its `article_tags` go too, but no transaction here asks for those rows. -/
  | articleDelete (article : α) (favorites : List υ) (comments : List ℕ)
  | avatarUpload (user : υ)
  /-- The attachments in the order in which the `DELETE` meets them. -/
  | avatarCleanup (attachments : List ℕ)
  | avatarMarker (owner : υ)

section Programs

variable {υ α : Type*}

def Transaction.requests : Transaction υ α → List (Row υ α × Mode)
  | .favoriteCreate v a =>
    [(.user v, .forUpdate), (.article a, .forUpdate), (.favorite a v, .forUpdate),
      (.article a, .forKeyShare), (.user v, .forKeyShare)]
  | .favoriteDelete v a =>
    [(.user v, .forUpdate), (.article a, .forUpdate), (.favorite a v, .forUpdate)]
  | .commentCreate u a =>
    [(.article a, .forUpdate), (.article a, .forKeyShare), (.user u, .forKeyShare)]
  | .commentDelete a c => [(.article a, .forUpdate), (.comment a c, .forUpdate)]
  | .articleUpdate a => [(.article a, .forUpdate)]
  | .articleDelete a favorites comments =>
    (.article a, .forUpdate) ::
      (favorites.map (fun v => (.favorite a v, .forUpdate)) ++
        comments.map fun c => (.comment a c, .forUpdate))
  | .avatarUpload u => [(.user u, .forUpdate), (.user u, .forKeyShare)]
  | .avatarCleanup attachments => attachments.map fun i => (.attachment i, .forUpdate)
  | .avatarMarker u => [(.user u, .forKeyShare)]

/-- Rows that a request can find deleted and pass over. -/
def Row.mayBeGone : Row υ α → Bool
  | .user _ | .article _ => false
  | .comment _ _ | .favorite _ _ | .attachment _ => true

/-- The article under whose lock a row is locked. -/
def Row.parent : Row υ α → Option (Row υ α)
  | .comment a _ | .favorite a _ => some (.article a)
  | .user _ | .article _ | .attachment _ => none

/-- The order in which the transactions `ops` lock rows they may have to wait for. -/
inductive Precedes {τ : Type*} (ops : τ → Transaction υ α) : Row υ α → Row υ α → Prop where
  | favoriteCreate {t v a} (h : ops t = .favoriteCreate v a) : Precedes ops (.user v) (.article a)
  | favoriteDelete {t v a} (h : ops t = .favoriteDelete v a) : Precedes ops (.user v) (.article a)
  | commentCreate {t u a} (h : ops t = .commentCreate u a) : Precedes ops (.article a) (.user u)
  | avatarCleanup {t ids i j} (h : ops t = .avatarCleanup ids) (hsub : [i, j].Sublist ids)
      (hne : i ≠ j) : Precedes ops (.attachment i) (.attachment j)

end Programs

/-! ### What a request comes after -/

section Requests

variable {υ α τ : Type*} {ops : τ → Transaction υ α}

theorem mayBeGone_parent {r p : Row υ α} (hp : r.parent = some p) : p.mayBeGone = false := by
  cases r <;> cases hp <;> rfl

/-- A row of an article's comments or favorites is requested under the article's lock.  Any other
row was locked before, or is requested after everything so far in the order of `Precedes`. -/
structure InOrder (ops : τ → Transaction υ α) (done : List (Row υ α × Mode))
    (r : Row υ α × Mode) : Prop where
  parent : ∀ p, r.1.parent = some p → (p, Mode.forUpdate) ∈ done
  order : r.1.parent = none →
    (r.1.mayBeGone = false ∧ (r.1, Mode.forUpdate) ∈ done) ∨
      ∀ x ∈ done, Precedes ops x.1 r.1 ∨ x = (r.1, Mode.forUpdate)

theorem inOrder_nil {r : Row υ α × Mode} (hr : r.1.parent = none) : InOrder ops [] r :=
  ⟨fun p hp => (by rw [hr] at hp; cases hp), fun _ => .inr fun _ h => absurd h List.not_mem_nil⟩

theorem inOrder_child {done : List (Row υ α × Mode)} {r : Row υ α × Mode} {p : Row υ α}
    (hr : r.1.parent = some p) (hp : (p, Mode.forUpdate) ∈ done) : InOrder ops done r :=
  ⟨fun q hq => (by rw [hr] at hq; cases hq; exact hp), fun h => (by rw [hr] at h; cases h)⟩

theorem inOrder_again {done : List (Row υ α × Mode)} {r : Row υ α × Mode}
    (hr : r.1.parent = none) (hg : r.1.mayBeGone = false) (h : (r.1, Mode.forUpdate) ∈ done) :
    InOrder ops done r :=
  ⟨fun q hq => (by rw [hr] at hq; cases hq), fun _ => .inl ⟨hg, h⟩⟩

theorem inOrder_after {done : List (Row υ α × Mode)} {r : Row υ α × Mode}
    (hr : r.1.parent = none) (h : ∀ x ∈ done, Precedes ops x.1 r.1 ∨ x = (r.1, Mode.forUpdate)) :
    InOrder ops done r :=
  ⟨fun q hq => (by rw [hr] at hq; cases hq), fun _ => .inr h⟩

/-- A clean-up meets its rows in its own order. -/
theorem inOrder_cleanup {t : τ} {ids : List ℕ} (ho : ops t = .avatarCleanup ids) :
    Locks.Each (InOrder ops) [] (Transaction.avatarCleanup ids : Transaction υ α).requests := by
  refine Locks.each_iff.mpr ?_
  intro d r rest h
  obtain ⟨before, after, hids, rfl, hafter⟩ := List.map_eq_append_iff.mp h
  obtain ⟨i, after, rfl, rfl, -⟩ := List.map_eq_cons_iff.mp hafter
  refine inOrder_after rfl ?_
  intro x hx
  obtain ⟨j, hj, rfl⟩ := List.mem_map.mp hx
  by_cases hji : j = i
  · exact .inr (by rw [hji])
  · have hsub : ([j] ++ [i]).Sublist (before ++ i :: after) :=
      (List.singleton_sublist.mpr hj).append (List.singleton_sublist.mpr List.mem_cons_self)
    exact .inl (.avatarCleanup ho (hids ▸ hsub) hji)

/-- **Every transaction requests in order.** -/
theorem requests_inOrder (t : τ) : Locks.Each (InOrder ops) [] (ops t).requests := by
  cases ho : ops t with
  | favoriteCreate v a =>
      refine ⟨inOrder_nil rfl, inOrder_after rfl ?_, inOrder_child rfl ?_, inOrder_again rfl rfl ?_,
        inOrder_again rfl rfl ?_, trivial⟩
      · simpa using Precedes.favoriteCreate ho
      all_goals simp
  | favoriteDelete v a =>
      refine ⟨inOrder_nil rfl, inOrder_after rfl ?_, inOrder_child rfl ?_, trivial⟩
      · simpa using Precedes.favoriteDelete ho
      · simp
  | commentCreate u a =>
      refine ⟨inOrder_nil rfl, inOrder_again rfl rfl ?_, inOrder_after rfl ?_, trivial⟩
      · simp
      · simpa using Precedes.commentCreate ho
  | commentDelete a c => exact ⟨inOrder_nil rfl, inOrder_child rfl (by simp), trivial⟩
  | articleUpdate a => exact ⟨inOrder_nil rfl, trivial⟩
  | articleDelete a favorites comments =>
      refine ⟨inOrder_nil rfl, Locks.each_iff.mpr ?_⟩
      intro d r rest h
      have hr : r ∈ favorites.map (fun v => ((.favorite a v : Row υ α), Mode.forUpdate)) ++
          comments.map fun c => ((.comment a c : Row υ α), Mode.forUpdate) := by
        rw [h]; simp
      refine @inOrder_child _ _ _ _ _ _ (.article a) ?_ (by simp)
      rcases List.mem_append.mp hr with hr | hr
      all_goals
        obtain ⟨_, -, rfl⟩ := List.mem_map.mp hr
        rfl
  | avatarUpload u => exact ⟨inOrder_nil rfl, inOrder_again rfl rfl (by simp), trivial⟩
  | avatarCleanup ids => exact inOrder_cleanup ho
  | avatarMarker u => exact ⟨inOrder_nil rfl, trivial⟩

end Requests

/-! ### Runs -/

section Runs

variable {υ α τ : Type*} [DecidableEq υ] [DecidableEq α] [DecidableEq τ] [Fintype τ]
  {ops : τ → Transaction υ α}

/-- The transactions `ops` together. -/
def step (s : τ → Party (Row υ α) Mode) (e : LockEvent τ) : Option (τ → Party (Row υ α) Mode) :=
  Locks.step Row.mayBeGone s e

/-- All transactions before their first statement. -/
def start (ops : τ → Transaction υ α) : τ → Party (Row υ α) Mode :=
  Locks.start fun t => (ops t).requests

abbrev Inv (ops : τ → Transaction υ α) (s : τ → Party (Row υ α) Mode) : Prop :=
  Locks.Inv Row.mayBeGone (fun t => (ops t).requests) s

variable {s : τ → Party (Row υ α) Mode}

omit [DecidableEq υ] [DecidableEq α] [DecidableEq τ] [Fintype τ] in
/-- Whoever holds a row of an article's comments or favorites holds the article. -/
theorem parent_held (hi : Inv ops s) {t : τ} {x : Row υ α × Mode} (hx : x ∈ (s t).held)
    {p : Row υ α} (hp : x.1.parent = some p) : (p, Mode.forUpdate) ∈ (s t).held := by
  rcases hi.progress t with ⟨-, h⟩ | ⟨done, hd, hh, hg⟩
  · rw [h] at hx; cases hx
  · obtain ⟨d, d', rfl⟩ := List.append_of_mem (hh x hx)
    have hmem : (p, Mode.forUpdate) ∈ d := by
      rw [List.append_assoc, List.cons_append] at hd
      simpa using (Locks.each_iff.mp (@requests_inOrder _ _ _ ops t) d x _ hd).parent p hp
    refine hg _ (List.mem_append_left _ hmem) ?_
    exact mayBeGone_parent hp

omit [DecidableEq υ] [DecidableEq α] [DecidableEq τ] [Fintype τ] in
/-- A waiting transaction holds only rows that precede the one it waits for. -/
theorem precedes_of_waits (hi : Inv ops s) {t u : τ} (hw : Locks.Waits s t u)
    {r : Row υ α × Mode} (hr : r ∈ (s t).rest.head?) {x : Row υ α × Mode} (hx : x ∈ (s t).held) :
    Precedes ops x.1 r.1 := by
  have hut : u ≠ t := hw.2.1
  obtain ⟨done, r', rest, hprog, hrest, hh, hg, hb⟩ := hi.waits hw
  obtain rfl : r' = r := by rw [hrest] at hr; exact Option.some.inj hr
  have hord : InOrder ops done r' := by
    simpa using Locks.each_iff.mp (@requests_inOrder _ _ _ ops t) done r' rest hprog
  cases hp : r'.1.parent with
  | some p =>
      -- both would hold the article
      obtain ⟨y, hy, hyr, -⟩ := hb
      have hu := parent_held hi hy (hyr ▸ hp)
      have ht := hg _ (hord.parent p hp) (mayBeGone_parent hp)
      exact absurd (hi.exclusive t u hut.symm _ ht _ hu rfl) (by simp)
  | none =>
      -- a row locked before is not waited for
      have hnot : ∀ y ∈ (s t).held, y ≠ (r'.1, Mode.forUpdate) := by
        rintro y hy rfl
        exact @Locks.Inv.not_blocks_of_held _ _ _ _ _ _ _ hi _ _ hut _ r' hy rfl
          conflicts_forUpdate hb
      rcases hord.order hp with ⟨hgone, hagain⟩ | hafter
      · exact absurd rfl (hnot _ (hg _ hagain hgone))
      · exact (hafter x (hh x hx)).resolve_right (hnot x hx)

/-- **Lock-order safety.**  When the orders in which the transactions lock users, articles and
attachments close no cycle, no reachable state has a cycle of waiting transactions. -/
theorem acyclic_waits_of_acyclic (hops : Acyclic (Precedes ops)) {es : List (LockEvent τ)}
    (hr : run step (start ops) es = some s) : Acyclic (Locks.Waits s) := by
  have hi : Inv ops s := Locks.inv_run hr
  exact @Locks.acyclic_waits _ _ _ _ s (TransGen (Precedes ops)) (fun _ _ _ => .trans) hops
    fun t u hw r hr x hx => .single (precedes_of_waits hi hw hr hx)

omit [DecidableEq υ] [DecidableEq α] [DecidableEq τ] [Fintype τ] in
/-- When no one both favorites and comments, and every clean-up meets the attachments in the order
of one scan, by which they are numbered, the orders close no cycle. -/
theorem acyclic_precedes
    (h : ∀ t t' v a b, ops t = .favoriteCreate v a ∨ ops t = .favoriteDelete v a →
      ops t' ≠ .commentCreate v b)
    (hscan : ∀ t ids, ops t = .avatarCleanup ids → ids.Pairwise (· ≤ ·)) :
    Acyclic (Precedes ops) := by
  classical
  -- viewers, then articles, then authors of comments
  refine acyclic_of_rank (fun
    | .user v => if ∃ t b, ops t = .commentCreate v b then 2 else 0
    | .article _ | .comment _ _ | .favorite _ _ => 1
    | .attachment i => i) ?_
  rintro _ _ (@⟨t, v, a, hf⟩ | @⟨t, v, a, hf⟩ | @⟨t, u, a, hc⟩ | @⟨t, ids, i, j, hd, hsub, hne⟩)
  · have : ¬ ∃ t b, ops t = .commentCreate v b := fun ⟨t', b, hc⟩ => h t t' v a b (.inl hf) hc
    simp [this]
  · have : ¬ ∃ t b, ops t = .commentCreate v b := fun ⟨t', b, hc⟩ => h t t' v a b (.inr hf) hc
    simp [this]
  · have : ∃ t b, ops t = .commentCreate u b := ⟨t, a, hc⟩
    simp [this]
  · have hle : i ≤ j := List.pairwise_pair.mp ((hscan t ids hd).sublist hsub)
    exact lt_of_le_of_ne hle hne

end Runs

/-- A favorite by one user and a comment by another, on one article. -/
def favoriteAndComment (viewer author : Bool) : Bool → Transaction Bool Unit
  | false => .favoriteCreate viewer ()
  | true => .commentCreate author ()

theorem acyclic_waits_two_users :
    ∃ s, run step (start (favoriteAndComment false true))
        [.acquire false, .acquire true, .acquire true, .wait false] = some s ∧
      Acyclic (Locks.Waits s) := by
  have hops : Acyclic (Precedes (favoriteAndComment false true)) := by
    refine acyclic_precedes ?_ ?_
    · rintro (_ | _) (_ | _) v a b h h' <;> simp [favoriteAndComment] at h h'
      exact Bool.noConfusion (h.symm.trans h')
    · rintro (_ | _) ids h <;> simp [favoriteAndComment] at h
  refine ⟨_, rfl, ?_⟩
  exact @acyclic_waits_of_acyclic _ _ _ _ _ _ _ _ _ hops
    [.acquire false, .acquire true, .acquire true, .wait false] rfl

/-- The same user favorites and comments: each transaction waits for the other. -/
theorem not_acyclic_one_user :
    ∃ s, run step (start (favoriteAndComment false false))
        [.acquire false, .acquire true, .acquire true, .wait false, .wait true] = some s ∧
      ¬ Acyclic (Locks.Waits s) := by
  refine ⟨_, rfl, not_acyclic_of_pair (t := false) (u := true) ?_ ?_⟩
  · exact ⟨rfl, by decide, _, rfl, by decide⟩
  · exact ⟨rfl, by decide, _, rfl, by decide⟩

end MediumClone.Database
