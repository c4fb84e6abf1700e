import OzoneRust.Gateway.ListObjects

/-!
# Walking through a listing

A client follows `list_objects` from page to page, each with the token of the one before
(`OzoneRust.ListObjects.Walk`).

The keys that fold into one common prefix are those that begin with it, so they are next to
each other (`OzoneRust.ListObjects.folded_of_isPrefix`), also when the delimiter has several
bytes. A page that is full therefore has whole groups, and its token is the last key of the
last of them.

Two results follow. On a bucket that does not change, the walk ends and lists each key and each
common prefix once and in order (`OzoneRust.ListObjects.walk_complete`). On one that changes at
every call of the manager, no key is missed that is there all the time
(`OzoneRust.ListObjects.walk_never_misses`).
-/

namespace OzoneRust

namespace ListObjects

open Rewrite

/-! ### Groups -/

section Groups

variable {q : Query} {d e b p r : Bytes}

/-- The delimiter occurs in what a key has after the prefix, first after `s`. -/
def SplitsAt (q : Query) (key s : Bytes) : Prop :=
  q.delimiter ≠ [] ∧ q.start ++ (s ++ q.delimiter) <+: key ∧
    ∀ s', q.start ++ (s' ++ q.delimiter) <+: key → s.length ≤ s'.length

/-- The delimiter does not occur in what a key has after the prefix. -/
def Unsplit (q : Query) (key : Bytes) : Prop :=
  q.delimiter = [] ∨ ¬q.delimiter <:+: key.drop q.start.length

instance instDecidableUnsplit (q : Query) (key : Bytes) : Decidable (Unsplit q key) :=
  inferInstanceAs (Decidable (_ ∨ _))

theorem folded_eq_none_iff (hd : q.start <+: d) : folded q d = none ↔ Unsplit q d := by
  unfold folded Unsplit
  rw [if_pos hd]
  by_cases hdelim : q.delimiter = []
  · simp [hdelim]
  · simp [hdelim, cut_eq_none_iff]

/-- The text of a common prefix. -/
theorem folded_eq_some (hd : q.start <+: d) (h : folded q d = some p) :
    ∃ s t, d = q.start ++ (s ++ (q.delimiter ++ t)) ∧ p = q.start ++ (s ++ q.delimiter) ∧
      q.delimiter ≠ [] ∧ cut q.delimiter (s ++ (q.delimiter ++ t)) = some (s, t) := by
  obtain ⟨rest, rfl⟩ := hd
  unfold folded at h
  rw [if_pos (List.prefix_append _ _), List.drop_left] at h
  split at h
  · cases h
  · next hne =>
    obtain ⟨⟨s, t⟩, hcut, rfl⟩ := Option.map_eq_some_iff.mp h
    obtain rfl := eq_of_cut hcut
    exact ⟨s, t, rfl, rfl, hne, hcut⟩

theorem SplitsAt.start_isPrefix {s : Bytes} (h : SplitsAt q d s) : q.start <+: d :=
  (List.prefix_append _ _).trans h.2.1

theorem splitsAt_of_folded (hd : q.start <+: d) (h : folded q d = some p) :
    ∃ s, SplitsAt q d s ∧ p = q.start ++ (s ++ q.delimiter) := by
  obtain ⟨s, t, rfl, rfl, hne, hcut⟩ := folded_eq_some hd h
  refine ⟨s, ⟨hne, ⟨t, by simp⟩, ?_⟩, rfl⟩
  rintro s' ⟨t', heq⟩
  rw [List.append_assoc, List.append_assoc] at heq
  exact length_le_of_cut hcut (List.append_cancel_left heq).symm

/-- **The common prefix of a key** goes through the first delimiter. -/
theorem folded_of_splitsAt {s : Bytes} (h : SplitsAt q d s) :
    folded q d = some (q.start ++ (s ++ q.delimiter)) := by
  rcases hfold : folded q d with _ | p
  · obtain ⟨hne, ⟨t, rfl⟩, -⟩ := h
    rcases (folded_eq_none_iff (by simp)).mp hfold with hnil | hnot
    · exact absurd hnil hne
    · refine absurd ?_ hnot
      rw [List.append_assoc, List.drop_left]
      exact ⟨s, t, rfl⟩
  · obtain ⟨s', h', rfl⟩ := splitsAt_of_folded h.start_isPrefix hfold
    have hlen : s'.length = s.length := le_antisymm (h'.2.2 s h.2.1) (h.2.2 s' h'.2.1)
    have heq := List.prefix_of_prefix_length_le h'.2.1 h.2.1 (by simp [hlen])
    rw [heq.eq_of_length (by simp [hlen])]

/-- A key begins with the common prefix it folds into. -/
theorem isPrefix_of_folded (hd : q.start <+: d) (h : folded q d = some p) : p <+: d := by
  obtain ⟨s, t, rfl, rfl, -, -⟩ := folded_eq_some hd h
  exact ⟨t, by simp⟩

/-- **Every key that begins with a common prefix folds into it.** -/
theorem folded_of_isPrefix (hd : q.start <+: d) (h : folded q d = some p) (he : p <+: e) :
    folded q e = some p := by
  obtain ⟨s, t, rfl, rfl, hne, hcut⟩ := folded_eq_some hd h
  obtain ⟨t', rfl⟩ := he
  have hassoc : q.start ++ (s ++ q.delimiter) ++ t' = q.start ++ (s ++ (q.delimiter ++ t')) := by
    simp
  unfold folded
  rw [if_neg hne, hassoc, if_pos (List.prefix_append _ _), List.drop_left]
  dsimp only
  rw [cut_congr hcut t']
  rfl

/-- The keys of a group are next to each other. -/
theorem folded_of_le_of_le (hd : q.start <+: d) (hfd : folded q d = some p) (he : q.start <+: e)
    (hfe : folded q e = some p) (hdb : d ≤ b) (hbe : b ≤ e) : folded q b = some p :=
  folded_of_isPrefix hd hfd (isPrefix_of_le_of_le (isPrefix_of_folded hd hfd)
    (isPrefix_of_folded he hfe) hdb hbe)

/-- Common prefixes are in the order of their keys. -/
theorem folded_lt_folded (hd : q.start <+: d) (hfd : folded q d = some p) (he : q.start <+: e)
    (hfe : folded q e = some r) (hne : p ≠ r) (hlt : d < e) : p < r := by
  refine lt_of_prefix_of_lt (isPrefix_of_folded hd hfd) (isPrefix_of_folded he hfe) ?_ ?_ hlt
  · intro hpe
    rw [folded_of_isPrefix hd hfd hpe] at hfe
    exact hne (Option.some.inj hfe)
  · intro hrd
    rw [folded_of_isPrefix he hfe hrd] at hfd
    exact hne (Option.some.inj hfd).symm

end Groups

/-! ### Pages -/

section Consumed

variable {q : Query}

theorem consume_of_none {s : State} {k : KeyListing} (h : folded q k.key = none) :
    consume q s k = ⟨s.contents ++ [.ofListing k], s.commonPrefixes, s.count + 1, k.key,
      s.startAfter, s.isTruncated⟩ := by
  rw [consume, h]

theorem consume_of_mem {s : State} {k : KeyListing} {p : Bytes} (h : folded q k.key = some p)
    (hp : p ∈ s.commonPrefixes) :
    consume q s k = ⟨s.contents, s.commonPrefixes, s.count, k.key, s.startAfter,
      s.isTruncated⟩ := by
  rw [consume, h]
  exact if_pos hp

theorem consume_of_not_mem {s : State} {k : KeyListing} {p : Bytes} (h : folded q k.key = some p)
    (hp : p ∉ s.commonPrefixes) :
    consume q s k = ⟨s.contents, s.commonPrefixes ++ [p], s.count + 1, k.key, s.startAfter,
      s.isTruncated⟩ := by
  rw [consume, h]
  exact if_neg hp

/-- **The page of the keys that were consumed.** -/
structure IsPage (q : Query) (D : List KeyListing) (s : State) : Prop where
  /-- The keys that do not fold. -/
  contents : s.contents = (D.filter fun k => folded q k.key = none).map .ofListing
  /-- The common prefixes of the others. -/
  mem_commonPrefixes : ∀ p, p ∈ s.commonPrefixes ↔ ∃ d ∈ D, folded q d.key = some p
  /-- The common prefixes ascend. -/
  ascending : s.commonPrefixes.Pairwise (· < ·)
  /-- The number of entries. -/
  count : s.count = s.contents.length + s.commonPrefixes.length
  /-- The last key. -/
  resumeKey : s.resumeKey = (D.getLast?.map (·.key)).getD []

theorem isPage_foldl {D : List KeyListing} (token : Bytes)
    (hpair : D.Pairwise fun a b => a.key < b.key) (hstart : ∀ d ∈ D, q.start <+: d.key) :
    IsPage q D (D.foldl (consume q) (.start token)) := by
  induction D using List.reverseRecOn with
  | nil => exact ⟨rfl, by simp [State.start], .nil, rfl, rfl⟩
  | append_singleton D k ih =>
    obtain ⟨hpairD, -, hlt⟩ := List.pairwise_append.mp hpair
    obtain ⟨hcontents, hmem, hasc, hcount, -⟩ := ih hpairD fun d hd =>
      hstart d (List.mem_append_left _ hd)
    have hk := hstart k (by simp)
    rw [List.foldl_append, List.foldl_cons, List.foldl_nil]
    rcases hfold : folded q k.key with _ | p
    · rw [consume_of_none hfold]
      refine ⟨?_, fun r => ?_, hasc, ?_, by simp⟩
      · simp [hcontents, hfold, List.filter_append]
      · rw [hmem]
        simp [hfold]
      · simp only [hcount, List.length_append, List.length_singleton]
        omega
    · by_cases hp : p ∈ (D.foldl (consume q) (.start token)).commonPrefixes
      · rw [consume_of_mem hfold hp]
        refine ⟨?_, fun r => ?_, hasc, hcount, by simp⟩
        · simp [hcontents, hfold, List.filter_append]
        · rw [hmem]
          constructor
          · rintro ⟨d, hd, hr⟩
            exact ⟨d, List.mem_append_left _ hd, hr⟩
          · rintro ⟨d, hd, hr⟩
            rcases List.mem_append.mp hd with hd | hd
            · exact ⟨d, hd, hr⟩
            · rw [List.mem_singleton.mp hd, hfold] at hr
              obtain rfl := Option.some.inj hr
              exact (hmem p).mp hp
      · rw [consume_of_not_mem hfold hp]
        refine ⟨?_, fun r => ?_, ?_, ?_, by simp⟩
        · simp [hcontents, hfold, List.filter_append]
        · simp only [List.mem_append, List.mem_singleton, hmem]
          constructor
          · rintro (⟨d, hd, hr⟩ | rfl)
            · exact ⟨d, .inl hd, hr⟩
            · exact ⟨k, .inr rfl, hfold⟩
          · rintro ⟨d, hd | rfl, hr⟩
            · exact .inl ⟨d, hd, hr⟩
            · rw [hfold] at hr
              exact .inr (Option.some.inj hr).symm
        · refine List.pairwise_append.mpr ⟨hasc, List.pairwise_singleton _ _, ?_⟩
          rintro r hr _ hp'
          obtain rfl := List.mem_singleton.mp hp'
          obtain ⟨d, hd, hfd⟩ := (hmem r).mp hr
          refine folded_lt_folded (hstart d (List.mem_append_left _ hd)) hfd hk hfold ?_
            (hlt d hd k (by simp))
          rintro rfl
          exact hp hr
        · simp only [hcount, List.length_append, List.length_singleton]
          omega

end Consumed

/-- What a page is, by the keys that were consumed for it and the key where it stopped. -/
structure IsListing (q : Query) (D : List KeyListing) (stop : Option KeyListing) (l : Listing) :
    Prop where
  /-- The keys that do not fold. -/
  contents : l.contents = (D.filter fun k => folded q k.key = none).map .ofListing
  /-- The common prefixes of the others. -/
  mem_commonPrefixes : ∀ p, p ∈ l.commonPrefixes ↔ ∃ d ∈ D, folded q d.key = some p
  /-- The common prefixes ascend. -/
  ascending : l.commonPrefixes.Pairwise (· < ·)
  /-- The page is not too large. -/
  size_le : l.contents.length + l.commonPrefixes.length ≤ q.maxKeys.toNat
  /-- It is truncated where it stopped. -/
  isTruncated : l.isTruncated = stop.isSome
  /-- Then it is full, and the key where it stopped is new. -/
  full : ∀ y ∈ stop, l.contents.length + l.commonPrefixes.length = q.maxKeys.toNat ∧
    ∀ p, folded q y.key = some p → p ∉ l.commonPrefixes
  /-- Then its token is the last key it consumed. -/
  token : ∀ y ∈ stop, ∃ last, D.getLast? = some last ∧ l.nextContinuationToken = last.key

/-- A call of `list_objects` that returns. -/
def Lists (om : Manager) (q : Query) (n : ℕ) (token : Bytes) (l : Listing) (n' : ℕ) : Prop :=
  ∃ fuel, listObjects om q fuel n token = some (.ok l, n')

section Call

variable {K : ℕ → KeySet} {q : Query} {n n' : ℕ} {token : Bytes} {l : Listing}

theorem maxKeys_ne_zero (hpos : 1 ≤ q.maxKeys.toNat) : q.maxKeys ≠ 0 := by
  intro hzero
  rw [hzero] at hpos
  exact absurd hpos (by decide)

/-- **One page**, whatever happens to the keys in between. -/
theorem Lists.isListing (hpos : 1 ≤ q.maxKeys.toNat) (hmax : q.maxKeys.toNat ≤ 1000)
    (h : Lists (serve K) q n token l n') :
    n < n' ∧ ∃ D stop, Scanned K q n n' token D stop ∧ IsListing q D stop l := by
  obtain ⟨fuel, h⟩ := h
  rw [listObjects, if_neg (maxKeys_ne_zero hpos)] at h
  obtain ⟨⟨o, n''⟩, hloop, heq⟩ := Option.map_eq_some_iff.mp h
  obtain ⟨hlt, D, stop, c, hscan, rfl, hsize, hstop⟩ :=
    listLoop_scanned hpos hmax hloop rfl (Nat.zero_le _)
  obtain ⟨rfl, rfl⟩ :
      ((D.foldl (consume q) (.start token)).withCursor c stop.isSome).listing = l ∧ n'' = n' := by
    cases heq
    exact ⟨rfl, rfl⟩
  have hpage := isPage_foldl token hscan.ascending fun d hd =>
    (hscan.source d (List.mem_append_left _ hd)).1
  refine ⟨hlt, D, stop, hscan, hpage.contents, hpage.mem_commonPrefixes, hpage.ascending, ?_, rfl,
    ?_, ?_⟩
  · exact hpage.count.symm.trans_le hsize
  · intro y hy
    exact ⟨hpage.count.symm.trans (hstop y hy).2, (hstop y hy).1⟩
  · intro y hy
    -- the page is not empty, for it is full
    rcases hlast : D.getLast? with _ | last
    · obtain rfl := List.getLast?_eq_none_iff.mp hlast
      have hfull : 0 = q.maxKeys.toNat := (hstop y hy).2
      omega
    · have hsome : stop.isSome = true := Option.isSome_iff_exists.mpr ⟨y, hy⟩
      refine ⟨last, rfl, ?_⟩
      show (if stop.isSome = true then (D.foldl (consume q) (.start token)).resumeKey else []) = _
      rw [if_pos hsome, hpage.resumeKey, hlast]
      rfl

end Call

/-! ### Walks -/

/-- **Following the tokens**: the pages so far, the token for the next one, and the number of
the next call of the manager. -/
inductive Walk (om : Manager) (q : Query) : List Listing → Bytes → ℕ → Prop
  /-- It begins with the empty token. -/
  | start : Walk om q [] [] 0
  /-- It goes on after a truncated page. -/
  | next {pages token n l n'} : Walk om q pages token n → Lists om q n token l n' →
    l.isTruncated = true → Walk om q (pages ++ [l]) l.nextContinuationToken n'

/-- A walk that has reached a page that is not truncated. -/
def Finished (om : Manager) (q : Query) (pages : List Listing) (n' : ℕ) : Prop :=
  ∃ init token n l, pages = init ++ [l] ∧ Walk om q init token n ∧ Lists om q n token l n' ∧
    l.isTruncated = false

/-- What pages say about the keys that were consumed for them, all together. -/
structure Covers (q : Query) (pages : List Listing) (E : List KeyListing) : Prop where
  /-- The keys ascend. -/
  ascending : E.Pairwise fun a b => a.key < b.key
  /-- They have the prefix. -/
  start : ∀ d ∈ E, q.start <+: d.key
  /-- Those that do not fold are listed in order. -/
  contents : pages.flatMap (·.contents) = (E.filter fun k => folded q k.key = none).map .ofListing
  /-- The others are there with their common prefixes. -/
  mem_commonPrefixes : ∀ p, p ∈ pages.flatMap (·.commonPrefixes) ↔
    ∃ d ∈ E, folded q d.key = some p

theorem Covers.append {q : Query} {pages : List Listing} {E D : List KeyListing} {l : Listing}
    {stop : Option KeyListing} (h : Covers q pages E) (hl : IsListing q D stop l)
    (hD : D.Pairwise fun a b => a.key < b.key) (hstart : ∀ d ∈ D, q.start <+: d.key)
    (hlt : ∀ e ∈ E, ∀ d ∈ D, e.key < d.key) : Covers q (pages ++ [l]) (E ++ D) := by
  refine ⟨List.pairwise_append.mpr ⟨h.ascending, hD, hlt⟩, ?_, ?_, fun p => ?_⟩
  · intro d hd
    exact (List.mem_append.mp hd).elim (h.start d) (hstart d)
  · rw [List.flatMap_append, h.contents, List.flatMap_singleton, hl.contents, List.filter_append,
      List.map_append]
  · rw [List.flatMap_append, List.flatMap_singleton, List.mem_append, h.mem_commonPrefixes,
      hl.mem_commonPrefixes]
    simp only [List.mem_append, or_and_right, exists_or]

/-- What a walk has consumed. No key up to its token is missed that was there all the time. -/
structure Walked (K : ℕ → KeySet) (q : Query) (pages : List Listing) (token : Bytes) (n : ℕ)
    (E : List KeyListing) : Prop where
  /-- The pages are those of the keys. -/
  covers : Covers q pages E
  /-- The keys come up to the token. -/
  le_token : ∀ d ∈ E, d.key ≤ token
  /-- They were there at one of the calls. -/
  source : ∀ d ∈ E, ∃ u, d ∈ (K u).entries
  /-- None is missed. -/
  complete : ∀ x, q.start <+: x → [] < x → x ≤ token → (∀ u < n, (K u).Has x) →
    ∃ d ∈ E, d.key = x

section Run

variable {K : ℕ → KeySet} {q : Query} {n n' : ℕ} {token : Bytes} {l : Listing}
  {pages : List Listing} {E D : List KeyListing} {stop : Option KeyListing}

theorem Walked.covers_append (h : Walked K q pages token n E)
    (hscan : Scanned K q n n' token D stop) (hl : IsListing q D stop l) :
    Covers q (pages ++ [l]) (E ++ D) :=
  h.covers.append hl hscan.ascending (fun d hd => (hscan.source d (List.mem_append_left _ hd)).1)
    fun e he d hd => (h.le_token e he).trans_lt (hscan.after d hd)

theorem KeySet.nil_lt (K : KeySet) {k : KeyListing} (hk : k ∈ K.entries) : [] < k.key := by
  obtain ⟨b, t, hkey⟩ := List.exists_cons_of_ne_nil (K.ne_nil k hk)
  rw [hkey]
  exact List.nil_lt_cons b t

theorem nodup_keys (hpair : D.Pairwise fun a b => a.key < b.key) : (D.map (·.key)).Nodup := by
  rw [List.nodup_iff_pairwise_ne, List.pairwise_map]
  exact hpair.imp fun hlt => hlt.ne

/-- The last of ascending keys is the greatest. -/
theorem le_last {last : KeyListing} (hpair : D.Pairwise fun a b => a.key < b.key)
    (hlast : D.getLast? = some last) : ∀ d ∈ D, d.key ≤ last.key := by
  intro d hd
  obtain ⟨init, rfl⟩ := List.getLast?_eq_some_iff.mp hlast
  rcases List.mem_append.mp hd with hd | hd
  · exact ((List.pairwise_append.mp hpair).2.2 d hd last List.mem_cons_self).le
  · rw [List.mem_singleton.mp hd]

/-- What there is all the time and comes after the token is on the page, or after the page's
token. -/
theorem Walked.complete_append (h : Walked K q pages token n E) (hn : n < n')
    (hscan : Scanned K q n n' token D stop) {x : Bytes} (hstart : q.start <+: x) (hx : [] < x)
    (hstop : ∀ y ∈ stop, x < y.key) (hhas : ∀ u < n', (K u).Has x) : ∃ d ∈ E ++ D, d.key = x := by
  rcases le_or_gt x token with hle | hlt
  · obtain ⟨d, hd, hdx⟩ := h.complete x hstart hx hle fun u hu => hhas u (hu.trans hn)
    exact ⟨d, List.mem_append_left _ hd, hdx⟩
  · obtain ⟨d, hd, hdx⟩ := hscan.complete x hstart hlt hstop fun u _ hu => hhas u hu
    exact ⟨d, List.mem_append_right _ hd, hdx⟩

theorem Walked.source_append (h : Walked K q pages token n E)
    (hscan : Scanned K q n n' token D stop) : ∀ d ∈ E ++ D, ∃ u, d ∈ (K u).entries := by
  intro d hd
  rcases List.mem_append.mp hd with hd | hd
  · exact h.source d hd
  · obtain ⟨-, u, -, -, hu⟩ := hscan.source d (List.mem_append_left _ hd)
    exact ⟨u, hu⟩

/-- The next token of a truncated page. -/
theorem next_token (hscan : Scanned K q n n' token D stop) (hl : IsListing q D stop l)
    (htrunc : l.isTruncated = true) : ∃ y, stop = some y ∧ token < l.nextContinuationToken ∧
      l.nextContinuationToken < y.key ∧ ∀ d ∈ D, d.key ≤ l.nextContinuationToken := by
  rw [hl.isTruncated] at htrunc
  obtain ⟨y, rfl⟩ := Option.isSome_iff_exists.mp htrunc
  obtain ⟨last, hlast, htoken⟩ := hl.token y rfl
  have hmem := List.mem_of_getLast? hlast
  rw [htoken]
  exact ⟨y, rfl, hscan.after last hmem, (hscan.before y rfl).2 last hmem,
    le_last hscan.ascending hlast⟩

/-- **One more page of a walk.** -/
theorem Walked.next (h : Walked K q pages token n E) (hn : n < n')
    (hscan : Scanned K q n n' token D stop) (hl : IsListing q D stop l)
    (htrunc : l.isTruncated = true) :
    Walked K q (pages ++ [l]) l.nextContinuationToken n' (E ++ D) := by
  obtain ⟨y, rfl, htoken, hy, hD⟩ := next_token hscan hl htrunc
  refine ⟨h.covers_append hscan hl, ?_, h.source_append hscan, ?_⟩
  · intro d hd
    rcases List.mem_append.mp hd with hd | hd
    · exact (h.le_token d hd).trans htoken.le
    · exact hD d hd
  · intro x hstart hx hle hhas
    refine h.complete_append hn hscan hstart hx ?_ hhas
    rintro _ ⟨⟩
    exact hle.trans_lt hy

variable (hpos : 1 ≤ q.maxKeys.toNat) (hmax : q.maxKeys.toNat ≤ 1000)

include hpos hmax

/-- **Every walk**, by induction on its pages. -/
theorem Walk.walked (h : Walk (serve K) q pages token n) : ∃ E, Walked K q pages token n E := by
  induction h with
  | start =>
    refine ⟨[], ⟨.nil, by simp, rfl, by simp⟩, by simp, by simp, ?_⟩
    intro x _ hx hle _
    exact absurd hx hle.not_gt
  | next _ hlists htrunc ih =>
    obtain ⟨E, hE⟩ := ih
    obtain ⟨hn, D, stop, hscan, hl⟩ := hlists.isListing hpos hmax
    exact ⟨E ++ D, hE.next hn hscan hl htrunc⟩

/-- A walk that is finished has missed nothing. -/
theorem Finished.covers (h : Finished (serve K) q pages n) :
    0 < n ∧ ∃ E, Covers q pages E ∧ (∀ d ∈ E, ∃ u, d ∈ (K u).entries) ∧
      ∀ x, q.start <+: x → [] < x → (∀ u < n, (K u).Has x) → ∃ d ∈ E, d.key = x := by
  obtain ⟨init, token, n₀, l, rfl, hwalk, hlists, htrunc⟩ := h
  obtain ⟨E, hE⟩ := hwalk.walked hpos hmax
  obtain ⟨hn, D, stop, hscan, hl⟩ := hlists.isListing hpos hmax
  obtain rfl : stop = none := by
    rwa [hl.isTruncated, Option.isSome_eq_false_iff, Option.isNone_iff_eq_none] at htrunc
  refine ⟨by omega, E ++ D, hE.covers_append hscan hl, hE.source_append hscan, ?_⟩
  intro x hstart hx hhas
  exact hE.complete_append hn hscan hstart hx (by rintro _ ⟨⟩) hhas

/-- **No key is missed that is there all the time**, whatever happens to the others at every
call of the manager: it is listed once, or its common prefix is. -/
theorem walk_never_misses (h : Finished (serve K) q pages n) {x : Bytes} (hx : q.start <+: x)
    (hhas : ∀ u < n, (K u).Has x) :
    (Unsplit q x → ((pages.flatMap (·.contents)).map (·.key)).count x = 1) ∧
      ∀ s, SplitsAt q x s → ∃ l ∈ pages, q.start ++ (s ++ q.delimiter) ∈ l.commonPrefixes := by
  obtain ⟨hn, E, hcovers, -, hcomplete⟩ := h.covers hpos hmax
  have hne : [] < x := by
    obtain ⟨k, hk, rfl⟩ := hhas 0 hn
    exact (K 0).nil_lt hk
  obtain ⟨d, hd, rfl⟩ := hcomplete x hx hne hhas
  refine ⟨fun hunsplit => ?_, fun s hsplit => ?_⟩
  · have hfold := (folded_eq_none_iff hx).mpr hunsplit
    have hkeys : (pages.flatMap (·.contents)).map (·.key) =
        (E.filter fun k => folded q k.key = none).map (·.key) := by
      rw [hcovers.contents, List.map_map]
      rfl
    rw [hkeys]
    refine List.count_eq_one_of_mem ?_
      (List.mem_map_of_mem (List.mem_filter.mpr ⟨hd, by simpa using hfold⟩))
    exact nodup_keys (hcovers.ascending.filter _)
  · exact List.mem_flatMap.mp
      ((hcovers.mem_commonPrefixes _).mpr ⟨d, hd, folded_of_splitsAt hsplit⟩)

end Run

/-- A key at byte 98 that stays while one before it goes and one after it comes. -/
def passing (u : ℕ) : KeySet :=
  if u = 0 then ⟨[⟨[97], 0, none⟩, ⟨[98], 0, none⟩], by decide, by decide⟩
  else ⟨[⟨[98], 0, none⟩, ⟨[99], 0, none⟩], by decide, by decide⟩

theorem walk_never_misses_passing :
    Finished (serve passing) ⟨[], [47], 1⟩ [⟨true, [97], [⟨[97], 0, ""⟩], []⟩,
      ⟨true, [98], [⟨[98], 0, ""⟩], []⟩, ⟨false, [], [⟨[99], 0, ""⟩], []⟩] 6 ∧
    List.count [98] [[97], [98], [99]] = 1 := by
  have hfirst : Walk (serve passing) ⟨[], [47], 1⟩ [⟨true, [97], [⟨[97], 0, ""⟩], []⟩] [97] 2 :=
    .next .start ⟨2, by decide⟩ rfl
  have hsecond : Walk (serve passing) ⟨[], [47], 1⟩ [⟨true, [97], [⟨[97], 0, ""⟩], []⟩,
      ⟨true, [98], [⟨[98], 0, ""⟩], []⟩] [98] 4 := .next hfirst ⟨2, by decide⟩ rfl
  have hfin : Finished (serve passing) ⟨[], [47], 1⟩ [⟨true, [97], [⟨[97], 0, ""⟩], []⟩,
      ⟨true, [98], [⟨[98], 0, ""⟩], []⟩, ⟨false, [], [⟨[99], 0, ""⟩], []⟩] 6 :=
    ⟨_, _, 4, _, rfl, hsecond, ⟨2, by decide⟩, rfl⟩
  have hhas : ∀ u < 6, (passing u).Has [98] := by
    intro u _
    unfold passing
    split_ifs
    · exact ⟨⟨[98], 0, none⟩, by decide, rfl⟩
    · exact ⟨⟨[98], 0, none⟩, by decide, rfl⟩
  exact ⟨hfin, (walk_never_misses (by decide) (by decide) hfin List.nil_prefix hhas).1
    (.inr (by decide))⟩

/-! ### A bucket that does not change -/

/-- The entry of a key is on a page. -/
def Listing.Shows (q : Query) (l : Listing) (k : KeyListing) : Prop :=
  (folded q k.key = none → .ofListing k ∈ l.contents) ∧
    ∀ p, folded q k.key = some p → p ∈ l.commonPrefixes

/-- **A page of a walk is as it should be**: its size, whether it is truncated, and its token,
given the pages so far and the token that requested it. -/
structure PageOk (K : KeySet) (q : Query) (pages : List Listing) (token : Bytes) (l : Listing) :
    Prop where
  /-- It has at most `max_keys` entries. -/
  size_le : l.contents.length + l.commonPrefixes.length ≤ q.maxKeys.toNat
  /-- It has as many if it is truncated. -/
  size_eq : l.isTruncated = true →
    l.contents.length + l.commonPrefixes.length = q.maxKeys.toNat
  /-- It is truncated if some entry remains that is on no page so far, and only then. -/
  isTruncated_iff : l.isTruncated = true ↔
    ∃ k ∈ K.entries, q.start <+: k.key ∧ ∀ l' ∈ pages ++ [l], ¬ l'.Shows q k
  /-- Its token is not empty. -/
  token_ne : l.isTruncated = true → l.nextContinuationToken ≠ []
  /-- Its token is greater than the one that requested it. -/
  lt_token : l.isTruncated = true → token < l.nextContinuationToken

section Fixed

variable {K : KeySet} {q : Query} {n n' : ℕ} {token : Bytes} {l : Listing}
  {pages : List Listing} {E D : List KeyListing} {stop : Option KeyListing}

/-- A key is there once. -/
theorem KeySet.eq_of_key_eq {a b : KeyListing} (ha : a ∈ K.entries) (hb : b ∈ K.entries)
    (h : a.key = b.key) : a = b :=
  List.inj_on_of_nodup_map (nodup_keys K.ascending) ha hb h

/-- The key where a page stopped is the first one that it did not consume. -/
theorem stop_le {y k : KeyListing} (hscan : Scanned (fun _ => K) q n n' token D (some y))
    (hk : k ∈ K.entries) (hstart : q.start <+: k.key) (htoken : token < k.key)
    (hD : ∀ d ∈ D, d.key ≠ k.key) : y.key ≤ k.key := by
  by_contra hlt
  obtain ⟨d, hd, hkey⟩ := hscan.complete k.key hstart htoken
    (by rintro _ ⟨⟩; exact not_le.mp hlt) fun _ _ _ => ⟨k, hk, rfl⟩
  exact hD d hd hkey

/-- What is known of a walk through a bucket that does not change. No group is on both sides of
the token. -/
structure Steady (K : KeySet) (q : Query) (pages : List Listing) (token : Bytes) : Prop where
  /-- The common prefixes ascend from page to page. -/
  ascending : (pages.flatMap (·.commonPrefixes)).Pairwise (· < ·)
  /-- Those of the keys after the token are new. -/
  fresh : ∀ k ∈ K.entries, q.start <+: k.key → token < k.key → ∀ p, folded q k.key = some p →
    p ∉ pages.flatMap (·.commonPrefixes)

theorem Steady.ascending_append (h : Steady K q pages token)
    (hE : Walked (fun _ => K) q pages token n E)
    (hscan : Scanned (fun _ => K) q n n' token D stop) (hl : IsListing q D stop l) :
    ((pages ++ [l]).flatMap (·.commonPrefixes)).Pairwise (· < ·) := by
  rw [List.flatMap_append, List.flatMap_singleton]
  refine List.pairwise_append.mpr ⟨h.ascending, hl.ascending, fun p hp r hr => ?_⟩
  obtain ⟨d, hd, hfd⟩ := (hE.covers.mem_commonPrefixes p).mp hp
  obtain ⟨e, he, hfe⟩ := (hl.mem_commonPrefixes r).mp hr
  obtain ⟨hstart, -, -, -, hmem⟩ := hscan.source e (List.mem_append_left _ he)
  have htoken := hscan.after e he
  refine folded_lt_folded (hE.covers.start d hd) hfd hstart hfe ?_
    ((hE.le_token d hd).trans_lt htoken)
  rintro rfl
  exact h.fresh e hmem hstart htoken p hfe hp

/-- **One more page.** The key where it stopped is new, and so are those after it. -/
theorem Steady.next (h : Steady K q pages token) (hE : Walked (fun _ => K) q pages token n E)
    (hscan : Scanned (fun _ => K) q n n' token D stop) (hl : IsListing q D stop l)
    (htrunc : l.isTruncated = true) : Steady K q (pages ++ [l]) l.nextContinuationToken := by
  refine ⟨h.ascending_append hE hscan hl, ?_⟩
  obtain ⟨y, rfl, htoken, -, hD⟩ := next_token hscan hl htrunc
  intro k hk hstart hlt p hfold hp
  rw [List.flatMap_append, List.flatMap_singleton] at hp
  rcases List.mem_append.mp hp with hp | hp
  · exact h.fresh k hk hstart (htoken.trans hlt) p hfold hp
  · obtain ⟨d, hd, hfd⟩ := (hl.mem_commonPrefixes p).mp hp
    have hyk := stop_le hscan hk hstart (htoken.trans hlt) fun d hd =>
      ((hD d hd).trans_lt hlt).ne
    have hy := folded_of_le_of_le (hscan.source d (List.mem_append_left _ hd)).1 hfd hstart hfold
      ((hscan.before y rfl).2 d hd).le hyk
    exact (hl.full y rfl).2 p hy hp

/-- What covers a key shows it. -/
theorem Covers.shows {k : KeyListing} (h : Covers q pages E) (hk : k ∈ E) :
    ∃ l ∈ pages, l.Shows q k := by
  rcases hfold : folded q k.key with _ | p
  · have hmem : ObjectEntry.ofListing k ∈ pages.flatMap (·.contents) := by
      rw [h.contents]
      exact List.mem_map_of_mem (List.mem_filter.mpr ⟨hk, by simpa using hfold⟩)
    obtain ⟨l, hl, hkl⟩ := List.mem_flatMap.mp hmem
    exact ⟨l, hl, fun _ => hkl, fun p hp => by rw [hfold] at hp; cases hp⟩
  · obtain ⟨l, hl, hpl⟩ := List.mem_flatMap.mp ((h.mem_commonPrefixes p).mpr ⟨k, hk, hfold⟩)
    refine ⟨l, hl, fun hnone => ?_, fun r hr => ?_⟩
    · rw [hfold] at hnone
      cases hnone
    · rw [hfold] at hr
      cases hr
      exact hpl

/-- The key where a page stopped is on no page so far. -/
theorem not_shows_stop {y : KeyListing} (h : Steady K q pages token)
    (hE : Walked (fun _ => K) q pages token n E)
    (hscan : Scanned (fun _ => K) q n n' token D (some y)) (hl : IsListing q D (some y) l) :
    ∀ l' ∈ pages ++ [l], ¬ l'.Shows q y := by
  rintro l' hl' ⟨hnone, hsome⟩
  obtain ⟨hstart, -, -, -, hy⟩ := hscan.source y (by simp)
  have htoken := (hscan.before y rfl).1
  rcases hfold : folded q y.key with _ | p
  · have hmem : ObjectEntry.ofListing y ∈ (pages ++ [l]).flatMap (·.contents) :=
      List.mem_flatMap.mpr ⟨l', hl', hnone hfold⟩
    rw [(hE.covers_append hscan hl).contents] at hmem
    obtain ⟨d, hd, hkey⟩ := List.mem_map.mp hmem
    have hkey : d.key = y.key := congrArg (·.key) hkey
    rcases List.mem_append.mp (List.mem_filter.mp hd).1 with hd | hd
    · exact ((hE.le_token d hd).trans_lt htoken).ne hkey
    · exact ((hscan.before y rfl).2 d hd).ne hkey
  · have hp := hsome p hfold
    rcases List.mem_append.mp hl' with hl' | hl'
    · exact h.fresh y hy hstart htoken p hfold (List.mem_flatMap.mpr ⟨l', hl', hp⟩)
    · rw [List.mem_singleton.mp hl'] at hp
      exact (hl.full y rfl).2 p hfold hp

theorem pageOk (h : Steady K q pages token) (hE : Walked (fun _ => K) q pages token n E)
    (hn : n < n') (hscan : Scanned (fun _ => K) q n n' token D stop) (hl : IsListing q D stop l) :
    PageOk K q pages token l := by
  have hlt : l.isTruncated = true → token < l.nextContinuationToken := fun htrunc =>
    (next_token hscan hl htrunc).choose_spec.2.1
  refine ⟨hl.size_le, fun htrunc => ?_, ⟨fun htrunc => ?_, ?_⟩, fun htrunc hnil => ?_, hlt⟩
  · obtain ⟨y, rfl, -⟩ := next_token hscan hl htrunc
    exact (hl.full y rfl).1
  · obtain ⟨y, rfl, -⟩ := next_token hscan hl htrunc
    obtain ⟨hstart, -, -, -, hy⟩ := hscan.source y (by simp)
    exact ⟨y, hy, hstart, not_shows_stop h hE hscan hl⟩
  · rintro ⟨k, hk, hstart, hnot⟩
    rw [hl.isTruncated]
    by_contra hnone
    obtain rfl : stop = none := by simpa using hnone
    obtain ⟨d, hd, hkey⟩ := hE.complete_append hn hscan hstart (K.nil_lt hk) (by rintro _ ⟨⟩)
      fun _ _ => ⟨k, hk, rfl⟩
    obtain ⟨-, hdK⟩ := hE.source_append hscan d hd
    obtain rfl := K.eq_of_key_eq hdK hk hkey
    obtain ⟨l', hl', hshows⟩ := (hE.covers_append hscan hl).shows hd
    exact hnot l' hl' hshows
  · have hpos := hlt htrunc
    rw [hnil] at hpos
    exact List.not_lt_nil _ hpos

/-! ### The end of the walk -/

/-- How many keys come after a key. -/
def KeySet.after (K : KeySet) (c : Bytes) : ℕ := (K.entries.filter fun k => c < k.key).length

theorem KeySet.after_lt {k : KeyListing} {c : Bytes} (hk : k ∈ K.entries) (hc : c < k.key) :
    K.after k.key < K.after c := by
  have hfilter : K.entries.filter (fun e => k.key < e.key) =
      (K.entries.filter fun e => c < e.key).filter fun e => k.key < e.key := by
    rw [List.filter_filter]
    refine List.filter_congr fun e _ => ?_
    by_cases he : k.key < e.key
    · simp [he, hc.trans he]
    · simp [he]
  rw [KeySet.after, KeySet.after, hfilter]
  exact List.length_filter_lt_length_iff_exists.mpr
    ⟨k, List.mem_filter.mpr ⟨hk, by simpa using hc⟩, by simp⟩

/-- A call comes to an end. -/
theorem listLoop_isSome (K : KeySet) (q : Query) : ∀ (fuel n : ℕ) (s : State),
    s.isTruncated = false → K.after s.startAfter < fuel →
    (listLoop (serve fun _ => K) q fuel n s).isSome = true
  | 0, _, _, _, h => by omega
  | fuel + 1, n, s, hs, h => by
    rw [listLoop, serve]
    dsimp only
    rcases hlast : (K.listKeys q.start s.startAfter q.batch).getLast? with _ | last
    · rw [listRound, hlast]
      rfl
    · rcases listRound_cases q hs hlast with ⟨hround, -⟩ | ⟨D, k, R, -, -, -, hround⟩
      · rw [hround]
        split_ifs
        · rfl
        · -- the cursor has moved to the last key of the batch
          obtain ⟨hmem, -, hlt⟩ := K.mem_of_mem_listKeys (List.mem_of_getLast? hlast)
          have hafter := K.after_lt hmem hlt
          exact listLoop_isSome K q fuel (n + 1) _ rfl (by show K.after last.key < fuel; omega)
      · rw [hround]
        rfl

variable (hpos : 1 ≤ q.maxKeys.toNat) (hmax : q.maxKeys.toNat ≤ 1000)

include hpos hmax

theorem exists_lists (K : KeySet) (n : ℕ) (token : Bytes) :
    ∃ l n', Lists (serve fun _ => K) q n token l n' := by
  obtain ⟨⟨o, n'⟩, hloop⟩ := Option.isSome_iff_exists.mp
    (listLoop_isSome K q (K.after token + 1) n (.start token) rfl (Nat.lt_succ_self _))
  obtain ⟨-, D, stop, c, -, rfl, -⟩ := listLoop_scanned hpos hmax hloop rfl (Nat.zero_le _)
  refine ⟨((D.foldl (consume q) (.start token)).withCursor c stop.isSome).listing, n',
    K.after token + 1, ?_⟩
  rw [listObjects, if_neg (maxKeys_ne_zero hpos), hloop]
  rfl

/-- **Every walk comes to its end**: with each page, fewer keys are after the token. -/
theorem Walk.finishes (h : Walk (serve fun _ => K) q pages token n) :
    ∃ rest n', Finished (serve fun _ => K) q (pages ++ rest) n' := by
  induction hm : K.after token using Nat.strong_induction_on generalizing pages token n with
  | _ m ih =>
    obtain ⟨l, n', hlists⟩ := exists_lists hpos hmax K n token
    cases htrunc : l.isTruncated with
    | false => exact ⟨[l], n', pages, token, n, l, rfl, h, hlists, htrunc⟩
    | true =>
      obtain ⟨-, D, stop, hscan, hl⟩ := hlists.isListing hpos hmax
      obtain ⟨y, rfl, -⟩ := next_token hscan hl htrunc
      obtain ⟨last, hlast, hkey⟩ := hl.token y rfl
      have hmem := List.mem_of_getLast? hlast
      obtain ⟨-, -, -, -, hK⟩ := hscan.source last (List.mem_append_left _ hmem)
      have hlt := K.after_lt hK (hscan.after last hmem)
      rw [hm, ← hkey] at hlt
      obtain ⟨rest, n'', hfin⟩ := ih _ hlt (h.next hlists htrunc) rfl
      rw [List.append_assoc] at hfin
      exact ⟨_, n'', hfin⟩

theorem Walk.steady (h : Walk (serve fun _ => K) q pages token n) : Steady K q pages token := by
  induction h with
  | start => exact ⟨.nil, by simp⟩
  | next hwalk hlists htrunc ih =>
    obtain ⟨E, hE⟩ := hwalk.walked hpos hmax
    obtain ⟨-, D, stop, hscan, hl⟩ := hlists.isListing hpos hmax
    exact ih.next hE hscan hl htrunc

theorem Finished.ascending (h : Finished (serve fun _ => K) q pages n) :
    (pages.flatMap (·.commonPrefixes)).Pairwise (· < ·) := by
  obtain ⟨init, token, n₀, l, rfl, hwalk, hlists, -⟩ := h
  obtain ⟨E, hE⟩ := hwalk.walked hpos hmax
  obtain ⟨-, D, stop, hscan, hl⟩ := hlists.isListing hpos hmax
  exact (hwalk.steady hpos hmax).ascending_append hE hscan hl

/-- What a finished walk has consumed: the keys with the prefix. -/
theorem Finished.covers_filter (h : Finished (serve fun _ => K) q pages n) :
    Covers q pages (K.entries.filter fun k => q.start <+: k.key) := by
  obtain ⟨-, E, hcovers, hsource, hcomplete⟩ := h.covers hpos hmax
  have hmem : ∀ k, k ∈ E ↔ k ∈ K.entries.filter fun k => q.start <+: k.key := by
    intro k
    rw [List.mem_filter, decide_eq_true_eq]
    constructor
    · intro hk
      obtain ⟨-, hK⟩ := hsource k hk
      exact ⟨hK, hcovers.start k hk⟩
    · rintro ⟨hk, hstart⟩
      obtain ⟨d, hd, hkey⟩ := hcomplete k.key hstart (K.nil_lt hk) fun _ _ => ⟨k, hk, rfl⟩
      obtain ⟨-, hdK⟩ := hsource d hd
      rwa [← K.eq_of_key_eq hdK hk hkey]
  have hasc := K.ascending.filter fun k => q.start <+: k.key
  have hperm := (List.perm_ext_iff_of_nodup (nodup_keys hcovers.ascending).of_map
    (nodup_keys hasc).of_map).mpr hmem
  have heq := List.Perm.eq_of_pairwise (fun a b _ _ hab hba => absurd hab hba.asymm)
    hcovers.ascending hasc hperm
  rwa [← heq]

/-- **A walk through a bucket that does not change.** It comes to its end. Then every key with
the prefix that does not fold has been listed, in order, and the common prefixes of the others,
in order and each once. On the way every page is as it should be. -/
theorem walk_complete (K : KeySet) :
    (∀ pages token n, Walk (serve fun _ => K) q pages token n →
      ∃ rest n', Finished (serve fun _ => K) q (pages ++ rest) n') ∧
    (∀ pages n, Finished (serve fun _ => K) q pages n →
      pages.flatMap (·.contents) = (K.entries.filter fun k =>
        q.start <+: k.key ∧ Unsplit q k.key).map .ofListing ∧
      (pages.flatMap (·.commonPrefixes)).Pairwise (· < ·) ∧
      ∀ p, p ∈ pages.flatMap (·.commonPrefixes) ↔
        ∃ k ∈ K.entries, ∃ s, SplitsAt q k.key s ∧ p = q.start ++ (s ++ q.delimiter)) ∧
    ∀ pages token n l n', Walk (serve fun _ => K) q pages token n →
      Lists (serve fun _ => K) q n token l n' → PageOk K q pages token l := by
  refine ⟨fun pages token n h => h.finishes hpos hmax, fun pages n h => ?_, ?_⟩
  · have hcovers := h.covers_filter hpos hmax
    refine ⟨?_, h.ascending hpos hmax, fun p => ?_⟩
    · rw [hcovers.contents, List.filter_filter]
      congr 1
      refine List.filter_congr fun k _ => ?_
      by_cases hstart : q.start <+: k.key
      · simp [hstart, folded_eq_none_iff hstart]
      · simp [hstart]
    · rw [hcovers.mem_commonPrefixes]
      constructor
      · rintro ⟨k, hk, hfold⟩
        obtain ⟨hk, hstart⟩ := List.mem_filter.mp hk
        exact ⟨k, hk, splitsAt_of_folded (by simpa using hstart) hfold⟩
      · rintro ⟨k, hk, s, hsplit, rfl⟩
        exact ⟨k, List.mem_filter.mpr ⟨hk, by simpa using hsplit.start_isPrefix⟩,
          folded_of_splitsAt hsplit⟩
  · intro pages token n l n' hwalk hlists
    obtain ⟨E, hE⟩ := hwalk.walked hpos hmax
    obtain ⟨hn, D, stop, hscan, hl⟩ := hlists.isListing hpos hmax
    exact pageOk (hwalk.steady hpos hmax) hE hn hscan hl

end Fixed

/-- Keys `a/b/`, `a/c` and `b`, two to a page, through the delimiter `/`. -/
theorem walk_complete_folders :
    ∃ pages n, Finished (serve fun _ => ⟨[⟨[97, 47, 98, 47], 0, none⟩, ⟨[97, 47, 99], 0, none⟩,
        ⟨[98], 0, none⟩], by decide, by decide⟩) ⟨[], [47], 2⟩ pages n ∧
      pages.flatMap (·.contents) = [⟨[98], 0, ""⟩] ∧
      [97, 47] ∈ pages.flatMap (·.commonPrefixes) := by
  obtain ⟨hend, hall, -⟩ := walk_complete (q := ⟨[], [47], 2⟩) (by decide) (by decide)
    ⟨[⟨[97, 47, 98, 47], 0, none⟩, ⟨[97, 47, 99], 0, none⟩, ⟨[98], 0, none⟩], by decide, by decide⟩
  obtain ⟨pages, n, hfin⟩ := hend [] [] 0 .start
  obtain ⟨hcontents, -, hprefixes⟩ := hall pages n hfin
  refine ⟨pages, n, hfin, hcontents.trans (by decide), (hprefixes _).mpr
    ⟨⟨[97, 47, 99], 0, none⟩, by decide, [97], ⟨by decide, by decide, ?_⟩, rfl⟩⟩
  rintro (_ | ⟨a, s'⟩) h
  · exact absurd h (by decide)
  · exact Nat.succ_le_succ (Nat.zero_le _)

end ListObjects

end OzoneRust
