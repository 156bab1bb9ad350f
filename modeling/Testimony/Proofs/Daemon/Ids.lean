import Testimony.Lib.Except
import Testimony.Proofs.Daemon.NewSocket

/-!
# `Testimony.Proofs.Daemon.Ids`: the fanout ids of a configuration

The ids of a configuration are those it gives, and for the other entries the smallest positive
numbers it does not give, in order (`intendedIDs`). `served_of_runTestimony`: these are the ids
`RunTestimony` sets its sockets up with.

`ids_assigned` says the same without the search: `RunTestimony` does nothing but set up one entry
after the other, each with its id (`setUpEntry`), whatever the kernel and the file system answer.
-/

set_option autoImplicit false

namespace Testimony.Daemon

open Lib

/-! ### The ids of a configuration -/

/-- The ids a configuration gives. -/
def givenIDs (t : List ConfigEntry) : List Int := (t.map (·.fanoutID)).filter (0 < ·)

/-- Each entry with an id gets it, the others take the numbers of `left` in turn. -/
def assignIDs : List ConfigEntry → List Int → List Int
  | [], _ => []
  | sc :: t, left =>
      if 0 < sc.fanoutID then sc.fanoutID :: assignIDs t left
      else left.headD 0 :: assignIDs t left.tail

/-- The ids of the entries. The first `t.length` positive numbers have enough free ones. -/
def intendedIDs (t : List ConfigEntry) : List Int := assignIDs t (free (givenIDs t) 1 t.length)

/-- The entries without an id. -/
def autoEntries (t : List ConfigEntry) : Nat := t.countP fun sc => sc.fanoutID ≤ 0

/-- An entry gives an id if it has one above zero. -/
theorem givenIDs_cons (sc : ConfigEntry) (t : List ConfigEntry) : givenIDs (sc :: t) =
    if 0 < sc.fanoutID then sc.fanoutID :: givenIDs t else givenIDs t := by
  by_cases hid : 0 < sc.fanoutID <;> simp [givenIDs, hid]

/-- An entry without an id above zero gets one. -/
theorem autoEntries_cons (sc : ConfigEntry) (t : List ConfigEntry) : autoEntries (sc :: t) =
    if 0 < sc.fanoutID then autoEntries t else autoEntries t + 1 := by
  by_cases hid : 0 < sc.fanoutID
  · simp [autoEntries, hid, Int.not_le.mpr hid]
  · simp [autoEntries, hid, Int.not_lt.mp hid]

/-- Each entry gives an id or gets one. -/
theorem length_givenIDs (t : List ConfigEntry) :
    t.length = (givenIDs t).length + autoEntries t := by
  induction t with
  | nil => rfl
  | cons sc t ih =>
      rw [List.length_cons, ih, givenIDs_cons, autoEntries_cons]
      split
      · rw [List.length_cons]
        omega
      · omega

/-- Which numbers are free depends on the ones in use, not on their order. -/
theorem free_congr {used used' : List Int} (h : ∀ m, m ∈ used ↔ m ∈ used') (lo : Int) (n : Nat) :
    free used lo n = free used' lo n := by
  unfold free
  congr 1
  funext m
  rw [decide_eq_decide, h]

/-- There are free numbers enough: each id in use takes one out of `t.length`. -/
theorem autoEntries_le_length_free (t : List ConfigEntry) :
    autoEntries t ≤ (free (givenIDs t) 1 t.length).length := by
  have hcount := le_length_free (givenIDs t) 1 t.length
  have hsplit := length_givenIDs t
  omega

/-- The first loop collects the ids that are given. -/
theorem manualIDs_ok {t : List ConfigEntry} {acc ids : List Int} (h : manualIDs acc t = .ok ids) :
    (∀ m, m ∈ ids ↔ m ∈ acc ∨ m ∈ givenIDs t) ∧ ids.length = acc.length + (givenIDs t).length := by
  induction t generalizing acc with
  | nil =>
      cases h
      simp [givenIDs]
  | cons sc t ih =>
      simp only [manualIDs] at h
      split at h
      · cases h
      · split at h
        · cases h
        -- The id is neither negative nor a repetition.
        · obtain ⟨hmem, hlen⟩ := ih h
          rw [givenIDs_cons]
          by_cases hid : 0 < sc.fanoutID
          · rw [if_pos hid] at hmem hlen ⊢
            constructor
            · intro m
              rw [hmem m, List.mem_cons, List.mem_cons]
              tauto
            · rw [hlen, List.length_cons, List.length_cons]
              omega
          · rw [if_neg hid] at hmem hlen ⊢
            exact ⟨hmem, hlen⟩

/-- The numbers the search looks for are those the configuration leaves free. -/
theorem free_of_manualIDs {t : List ConfigEntry} {ids : List Int} (h : manualIDs [] t = .ok ids) :
    free (givenIDs t) 1 t.length = free ids 1 t.length :=
  free_congr (fun m => by rw [(manualIDs_ok h).1 m]; simp) 1 t.length

/-! ### The second loop -/

/-- The sockets of the entries, set up with the given ids. -/
inductive Served (env : Env) : List ConfigEntry → List Int → List (List Socket) → Prop
  | nil : Served env [] [] []
  | cons {sc : ConfigEntry} {t : List ConfigEntry} {id : Int} {ids : List Int}
      {socks : List Socket} {rest : List (List Socket)} (hsocks : newSockets env sc id = .ok socks)
      (hrest : Served env t ids rest) : Served env (sc :: t) (id :: ids) (socks :: rest)

/-- One round of the loop. -/
theorem serve_cons {env : Env} {ids : List Int} {autoID : Int} {names : List String}
    {sc : ConfigEntry} {t : List ConfigEntry} {all : List (List Socket)}
    (h : serve env ids autoID names (sc :: t) = .ok all) :
    ∃ id autoID' socks rest, chooseID ids autoID sc = .ok (id, autoID') ∧
      newSockets env sc id = .ok socks ∧
      serve env ids autoID' (sc.socketName :: names) t = .ok rest ∧ all = socks :: rest := by
  rw [serve] at h
  by_cases hname : sc.socketName ∈ names
  · rw [if_pos hname] at h
    cases h
  · rw [if_neg hname] at h
    obtain ⟨⟨id, autoID'⟩, hid, h⟩ := bind_eq_ok.mp h
    obtain ⟨socks, hsocks, h⟩ := bind_eq_ok.mp h
    by_cases hlisten : env.listens sc = false
    · rw [if_pos hlisten] at h
      cases h
    · rw [if_neg hlisten] at h
      obtain ⟨rest, hrest, h⟩ := bind_eq_ok.mp h
      cases h
      exact ⟨id, autoID', socks, rest, hid, hsocks, hrest, rfl⟩

/-- An entry without an id takes the first of the free numbers, and the search goes on behind it. -/
theorem chooseID_free {ids : List Int} {autoID m : Int} {left : List Int} {n : Nat}
    (hleft : m :: left = free ids autoID n) {sc : ConfigEntry} (hpos : ¬ 0 < sc.fanoutID) :
    chooseID ids autoID sc = .ok (m, m + 1) ∧ ∃ n', left = free ids (m + 1) n' := by
  obtain ⟨hm, hrest⟩ := search_eq hleft.symm
  rw [chooseID, if_neg hpos, hm]
  exact ⟨rfl, hrest⟩

/-- The loop hands out the free numbers in order. -/
theorem served_of_serve {env : Env} {ids : List Int} {t : List ConfigEntry} {autoID : Int}
    {names : List String} {all : List (List Socket)} (h : serve env ids autoID names t = .ok all)
    {left : List Int} {n : Nat} (hleft : left = free ids autoID n)
    (henough : autoEntries t ≤ left.length) : Served env t (assignIDs t left) all := by
  -- `left` holds what is free from `autoID` on, in each round.
  induction t generalizing autoID names all left n with
  | nil =>
      cases h
      exact .nil
  | cons sc t ih =>
      obtain ⟨id, autoID', socks, rest, hid, hsocks, hrest, rfl⟩ := serve_cons h
      rw [autoEntries_cons] at henough
      by_cases hpos : 0 < sc.fanoutID
      · rw [chooseID, if_pos hpos] at hid
        rw [if_pos hpos] at henough
        cases hid
        rw [assignIDs, if_pos hpos]
        exact .cons hsocks (ih hrest hleft henough)
      · rw [if_neg hpos] at henough
        rw [assignIDs, if_neg hpos]
        cases left with
        | nil => cases henough
        | cons m left =>
            obtain ⟨hm, n', hn'⟩ := chooseID_free hleft hpos
            rw [hm] at hid
            cases hid
            exact .cons hsocks (ih hrest hn' (Nat.le_of_succ_le_succ henough))

/-- `RunTestimony` sets the sockets of each entry up with its id. -/
theorem served_of_runTestimony {env : Env} {t : List ConfigEntry} {all : List (List Socket)}
    (h : runTestimony env t = .ok all) : Served env t (intendedIDs t) all := by
  unfold runTestimony at h
  cases hids : manualIDs [] t with
  | error e =>
      rw [hids] at h
      cases h
  | ok ids =>
      rw [hids] at h
      exact served_of_serve h (free_of_manualIDs hids) (autoEntries_le_length_free t)

/-! ### The ids as the configuration means them -/

/-- The configurations the first loop lets pass. -/
def ValidIDs (t : List ConfigEntry) : Prop := (∀ sc ∈ t, 0 ≤ sc.fanoutID) ∧ (givenIDs t).Nodup

/-- Two conditions on a list of numbers decide it. -/
instance (t : List ConfigEntry) : Decidable (ValidIDs t) := inferInstanceAs (Decidable (_ ∧ _))

/-- The first loop is about nothing but the ids. -/
theorem manualIDs_isOk_iff {t : List ConfigEntry} {acc : List Int} (hacc : ∀ m ∈ acc, 0 < m) :
    (∃ ids, manualIDs acc t = .ok ids) ↔ ValidIDs t ∧ ∀ m ∈ givenIDs t, m ∉ acc := by
  induction t generalizing acc with
  | nil => simp [manualIDs, ValidIDs, givenIDs]
  | cons sc t ih =>
      rw [manualIDs, ValidIDs, List.forall_mem_cons, givenIDs_cons]
      by_cases hneg : sc.fanoutID < 0
      · rw [if_pos hneg]
        constructor
        · rintro ⟨_, ⟨⟩⟩
        · rintro ⟨⟨⟨hnonneg, _⟩, _⟩, _⟩
          exact absurd hneg (Int.not_lt.mpr hnonneg)
      · have hnonneg := Int.not_lt.mp hneg
        rw [if_neg hneg]
        by_cases hpos : 0 < sc.fanoutID
        · rw [if_pos hpos, if_pos hpos, List.nodup_cons, List.forall_mem_cons]
          by_cases hmem : sc.fanoutID ∈ acc
          · rw [if_pos hmem]
            constructor
            · rintro ⟨_, ⟨⟩⟩
            · rintro ⟨_, hfresh, _⟩
              exact absurd hmem hfresh
          · -- The id joins the ones the rest of the entries must not have.
            rw [if_neg hmem, ih (List.forall_mem_cons.mpr ⟨hpos, hacc⟩), ValidIDs]
            simp only [List.mem_cons, not_or]
            constructor
            · rintro ⟨⟨hrest, hnodup⟩, hfresh⟩
              refine ⟨⟨⟨hnonneg, hrest⟩, fun hdup => (hfresh _ hdup).1 rfl, hnodup⟩, hmem, ?_⟩
              exact fun m hm => (hfresh m hm).2
            · rintro ⟨⟨⟨_, hrest⟩, hdup, hnodup⟩, _, hfresh⟩
              exact ⟨⟨hrest, hnodup⟩, fun m hm => ⟨fun heq => hdup (heq ▸ hm), hfresh m hm⟩⟩
        · have hmem : sc.fanoutID ∉ acc := fun h => hpos (hacc _ h)
          rw [if_neg hpos, if_neg hpos, if_neg hmem, ih hacc, ValidIDs]
          tauto

/-- The ids that `RunTestimony` chose, in the order of the entries. -/
def autoIDs (t : List ConfigEntry) (ids : List Int) : List Int :=
  ((t.zip ids).filter fun p => p.1.fanoutID = 0).map (·.2)

/-- Each entry of a configuration has an id. -/
structure Assigned (t : List ConfigEntry) (ids : List Int) : Prop where
  length_eq : ids.length = t.length
  /-- An id that is given is kept. -/
  manual : ∀ p ∈ t.zip ids, 0 < p.1.fanoutID → p.2 = p.1.fanoutID
  /-- The others go up, -/
  ascending : (autoIDs t ids).Pairwise (· < ·)
  /-- are not given anywhere in the list, -/
  fresh : ∀ id ∈ autoIDs t ids, 0 < id ∧ id ∉ givenIDs t
  /-- and leave no number out. -/
  smallest : ∀ id ∈ autoIDs t ids, ∀ m, 0 < m → m < id → m ∉ givenIDs t → m ∈ autoIDs t ids
  positive : ∀ id ∈ ids, 0 < id
  distinct : ids.Nodup

/-- Each entry has one id. -/
theorem length_assignIDs (t : List ConfigEntry) (left : List Int) :
    (assignIDs t left).length = t.length := by
  induction t generalizing left with
  | nil => rfl
  | cons sc t ih =>
      rw [assignIDs]
      split <;> rw [List.length_cons, List.length_cons, ih]

/-- An id that is given in the configuration is kept. -/
theorem assignIDs_manual {t : List ConfigEntry} {left : List Int} {p : ConfigEntry × Int}
    (hp : p ∈ t.zip (assignIDs t left)) (hpos : 0 < p.1.fanoutID) : p.2 = p.1.fanoutID := by
  induction t generalizing left with
  | nil => cases hp
  | cons sc t ih =>
      rw [assignIDs] at hp
      split at hp
      · rcases List.mem_cons.mp hp with rfl | hp
        · rfl
        · exact ih hp
      · rename_i hauto
        rcases List.mem_cons.mp hp with rfl | hp
        · exact absurd hpos hauto
        · exact ih hp

/-- The entries without an id take the front of the list. -/
theorem autoIDs_assignIDs {t : List ConfigEntry} (hnonneg : ∀ sc ∈ t, 0 ≤ sc.fanoutID)
    {left : List Int} (henough : autoEntries t ≤ left.length) :
    autoIDs t (assignIDs t left) = left.take (autoEntries t) := by
  induction t generalizing left with
  | nil => simp [autoIDs, autoEntries]
  | cons sc t ih =>
      obtain ⟨hsc, hrest⟩ := List.forall_mem_cons.mp hnonneg
      rw [autoEntries_cons] at henough ⊢
      rw [assignIDs]
      by_cases hpos : 0 < sc.fanoutID
      · rw [if_pos hpos] at henough ⊢
        rw [if_pos hpos, ← ih hrest henough]
        simp [autoIDs, Int.ne_of_gt hpos]
      · have hzero : sc.fanoutID = 0 := Int.le_antisymm (Int.not_lt.mp hpos) hsc
        rw [if_neg hpos] at henough ⊢
        cases left with
        | nil => cases henough
        | cons m left =>
            rw [if_neg hpos, List.take_succ_cons, ← ih hrest (Nat.le_of_succ_le_succ henough)]
            simp [autoIDs, hzero]

/-- The ids are the given ones and the front of the list. -/
theorem assignIDs_perm {t : List ConfigEntry} {left : List Int}
    (henough : autoEntries t ≤ left.length) :
    (assignIDs t left).Perm (givenIDs t ++ left.take (autoEntries t)) := by
  induction t generalizing left with
  | nil => simp [assignIDs, givenIDs, autoEntries]
  | cons sc t ih =>
      rw [autoEntries_cons] at henough ⊢
      rw [assignIDs, givenIDs_cons]
      by_cases hpos : 0 < sc.fanoutID
      · rw [if_pos hpos] at henough ⊢
        rw [if_pos hpos, if_pos hpos]
        exact (ih henough).cons _
      · rw [if_neg hpos] at henough ⊢
        rw [if_neg hpos, if_neg hpos]
        cases left with
        | nil => cases henough
        | cons m left =>
            -- The number goes in front of the rest, and the given ids stay in front of it.
            rw [List.take_succ_cons]
            exact ((ih (Nat.le_of_succ_le_succ henough)).cons m).trans List.perm_middle.symm

/-- The free numbers of a range are those that are not in use. -/
theorem mem_free {used : List Int} {lo m : Int} {n : Nat} :
    m ∈ free used lo n ↔ (lo ≤ m ∧ m < lo + n) ∧ m ∉ used := by
  rw [free, List.mem_filter, mem_upFrom, decide_eq_true_eq]

/-- What `RunTestimony` assigns is what the configuration means. -/
theorem ValidIDs.assigned {t : List ConfigEntry} (hvalid : ValidIDs t) :
    Assigned t (intendedIDs t) := by
  have henough := autoEntries_le_length_free t
  have hauto : autoIDs t (intendedIDs t) = (free (givenIDs t) 1 t.length).take (autoEntries t) :=
    autoIDs_assignIDs hvalid.1 henough
  have hsorted : (free (givenIDs t) 1 t.length).Pairwise (· < ·) := (sorted_upFrom 1 _).filter _
  have hperm := assignIDs_perm henough
  have hfresh : ∀ id ∈ autoIDs t (intendedIDs t), 0 < id ∧ id ∉ givenIDs t := by
    intro id hid
    rw [hauto] at hid
    obtain ⟨⟨hlo, _⟩, hused⟩ := mem_free.mp (List.mem_of_mem_take hid)
    exact ⟨hlo, hused⟩
  constructor
  · exact length_assignIDs t _
  · exact fun p hp => assignIDs_manual hp
  -- The chosen ids are the front of a sorted list of free numbers.
  · rw [hauto]
    exact hsorted.take
  · exact hfresh
  · -- A smaller free number stands before, so it is in the front too.
    intro id hid m hm hlt hused
    rw [hauto] at hid ⊢
    obtain ⟨⟨_, hhi⟩, _⟩ := mem_free.mp (List.mem_of_mem_take hid)
    have hfree : m ∈ free (givenIDs t) 1 t.length := mem_free.mpr ⟨⟨hm, hlt.trans hhi⟩, hused⟩
    rw [← List.take_append_drop (autoEntries t) (free _ _ _)] at hsorted hfree
    rcases List.mem_append.mp hfree with hfront | hback
    · exact hfront
    · have := (List.pairwise_append.mp hsorted).2.2 id hid m hback
      omega
  · intro id hid
    rcases List.mem_append.mp (hperm.mem_iff.mp hid) with hgiven | hfront
    · simpa using (List.mem_filter.mp hgiven).2
    · exact (hfresh id (hauto ▸ hfront)).1
  · refine hperm.nodup_iff.mpr (List.nodup_append'.mpr ⟨hvalid.2, ?_, ?_⟩)
    · exact hsorted.take.imp fun h => Int.ne_of_lt h
    · exact fun id hgiven hfront => (hfresh id (hauto ▸ hfront)).2 hgiven

/-- An entry with two sockets. -/
def twoSockets (socketName : String) (fanoutID : Int) : ConfigEntry where
  blockSize := 4096
  numBlocks := 4
  socketName := socketName
  interface := "eth0"
  blockTimeoutMillis := 100
  fanoutType := 0
  fanoutSize := 2
  fanoutID := fanoutID
  filter := ""
  isInt_blockSize := by decide
  isInt_numBlocks := by decide

/-- The ids behind an entry count as much as those in front of it. -/
example : intendedIDs [twoSockets "a" 0, twoSockets "b" 2, twoSockets "c" 0, twoSockets "d" 1] =
    [3, 2, 4, 1] := by decide

/-- Set up the sockets of an entry, and the socket its clients connect to. -/
def setUpEntry (env : Env) (p : ConfigEntry × Int) : Except Fatal (List Socket) := do
  let socks ← newSockets env p.1 p.2
  if env.listens p.1 = false then throw .listen
  return socks

/-- Only the choice of ids can go on for ever. -/
theorem setUpEntry_ne_searching (env : Env) (p : ConfigEntry × Int) :
    setUpEntry env p ≠ .error .searching := by
  intro h
  rcases bind_eq_error.mp h with hsocks | ⟨socks, -, h⟩
  · obtain ⟨i, _, hi⟩ := mapM_error hsocks
    split at hi <;> cases hi
  · split at h <;> cases h

/-- One round of the second loop, when the name is new. -/
theorem serve_cons_eq {env : Env} {ids : List Int} {autoID : Int} {names : List String}
    {sc : ConfigEntry} {t : List ConfigEntry} (hname : sc.socketName ∉ names) {id autoID' : Int}
    (hid : chooseID ids autoID sc = .ok (id, autoID')) :
    serve env ids autoID names (sc :: t) = do
      let socks ← setUpEntry env (sc, id)
      let rest ← serve env ids autoID' (sc.socketName :: names) t
      return socks :: rest := by
  rw [serve, if_neg hname, hid, setUpEntry]
  cases hsocks : newSockets env sc id with
  | error e => simp [bind, Except.bind, hsocks]
  | ok socks =>
      by_cases hlisten : env.listens sc = false
      · simp [bind, Except.bind, hsocks, hlisten, throw, throwThe, MonadExceptOf.throw]
      · simp [bind, Except.bind, pure, Except.pure, hsocks, hlisten]

/-- The second loop sets up one entry after the other. -/
theorem serve_eq {env : Env} {ids : List Int} {t : List ConfigEntry} {autoID : Int}
    {names : List String} (hnodup : (t.map (·.socketName)).Nodup)
    (hnames : ∀ sc ∈ t, sc.socketName ∉ names) {left : List Int} {n : Nat}
    (hleft : left = free ids autoID n) (henough : autoEntries t ≤ left.length) :
    serve env ids autoID names t = (t.zip (assignIDs t left)).mapM (setUpEntry env) := by
  induction t generalizing autoID names left n with
  | nil => rfl
  | cons sc t ih =>
      obtain ⟨hname, hrest⟩ := List.forall_mem_cons.mp hnames
      rw [List.map_cons, List.nodup_cons] at hnodup
      -- The names behind are neither among the earlier ones nor this one.
      have hnames' : ∀ sc' ∈ t, sc'.socketName ∉ sc.socketName :: names := by
        intro sc' hsc' hmem
        rcases List.mem_cons.mp hmem with heq | hmem
        · exact hnodup.1 (heq ▸ List.mem_map_of_mem hsc')
        · exact hrest sc' hsc' hmem
      rw [autoEntries_cons] at henough
      rw [assignIDs]
      by_cases hpos : 0 < sc.fanoutID
      · have hid : chooseID ids autoID sc = .ok (sc.fanoutID, autoID) := if_pos hpos
        rw [if_pos hpos] at henough ⊢
        rw [serve_cons_eq hname hid, ih hnodup.2 hnames' hleft henough, List.zip_cons_cons,
          List.mapM_cons]
      · rw [if_neg hpos] at henough ⊢
        cases left with
        | nil => cases henough
        | cons m left =>
            obtain ⟨hid, n', hn'⟩ := chooseID_free hleft hpos
            rw [serve_cons_eq hname hid,
              ih hnodup.2 hnames' hn' (Nat.le_of_succ_le_succ henough), List.headD_cons,
              List.tail_cons, List.zip_cons_cons, List.mapM_cons]

/-- In a valid configuration with distinct socket names every entry gets its id: its own, or the
smallest that is left. `RunTestimony` then sets the entries up one after the other, and its search
ends. Any other configuration is turned down by the first loop, before there is a socket. -/
theorem ids_assigned (t : List ConfigEntry) :
    (ValidIDs t → (t.map (·.socketName)).Nodup → ∃ ids, Assigned t ids ∧ ∀ env,
      runTestimony env t = (t.zip ids).mapM (setUpEntry env) ∧
      runTestimony env t ≠ .error .searching) ∧
    (¬ ValidIDs t → ∃ e, manualIDs [] t = .error e ∧ ∀ env, runTestimony env t = .error e) := by
  have hok : (∃ ids, manualIDs [] t = .ok ids) ↔ ValidIDs t := by
    rw [manualIDs_isOk_iff (fun _ h => absurd h List.not_mem_nil)]
    simp
  constructor
  · intro hvalid hnodup
    obtain ⟨ids, hids⟩ := hok.mpr hvalid
    refine ⟨intendedIDs t, hvalid.assigned, fun env => ?_⟩
    have hrun : runTestimony env t = (t.zip (intendedIDs t)).mapM (setUpEntry env) := by
      rw [runTestimony, hids]
      exact serve_eq hnodup (fun _ _ => List.not_mem_nil) (free_of_manualIDs hids)
        (autoEntries_le_length_free t)
    refine ⟨hrun, fun hsearching => ?_⟩
    -- What `RunTestimony` returns comes from setting up an entry, which never searches.
    obtain ⟨p, _, hp⟩ := mapM_error (hrun.symm.trans hsearching)
    exact setUpEntry_ne_searching env p hp
  · intro hinvalid
    cases hids : manualIDs [] t with
    | ok ids => exact absurd (hok.mp ⟨ids, hids⟩) hinvalid
    | error e =>
        refine ⟨e, rfl, fun env => ?_⟩
        rw [runTestimony, hids]
        rfl

/-- Two entries without an id, with the first two ids given behind them. -/
theorem ids_assigned_givenBehind :
    let t := [twoSockets "a" 0, twoSockets "b" 2, twoSockets "c" 0, twoSockets "d" 1]
    ValidIDs t ∧ ∃ ids, Assigned t ids ∧ ∀ env,
      runTestimony env t = (t.zip ids).mapM (setUpEntry env) ∧
      runTestimony env t ≠ .error .searching :=
  ⟨by decide, (ids_assigned _).1 (by decide) (by decide)⟩

end Testimony.Daemon
