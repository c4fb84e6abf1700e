import OzoneRust.Gateway.Backend
import OzoneRust.Lib.ByteOrder
import OzoneRust.Lib.Rewrite

/-!
# Listing a bucket

`list_objects` asks the Ozone Manager for the keys of a bucket, `max_keys` at a time, and folds
them into a page: a key whose remainder after the prefix contains the delimiter stands for its
common prefix, the others are listed themselves. Keys, prefixes and delimiters are the bytes of
their UTF-8.

The loop goes on until the page is full and one entry more has been seen, or until the manager
has no more keys; so it is given fuel. The manager's answers can change from call to call: calls
are numbered, and the manager is a function of the number.

`OzoneRust.ListObjects.listLoop_scanned` is what one call of `list_objects` does, whatever the
manager does in between: it consumes an ascending list of keys after its cursor, and misses no
key that was there all the time (`OzoneRust.ListObjects.Scanned`).
-/

namespace OzoneRust

namespace ListObjects

open Rewrite

/-! ### The loop -/

/-- `KeyListing`. -/
structure KeyListing where
  /-- The key. -/
  key : Bytes
  /-- The size. -/
  size : UInt64
  /-- The ETag. -/
  etag : Option String
  deriving DecidableEq, Repr

/-- `KeyListing` of a key of the manager. -/
def KeyListing.ofKeyInfo (key : Bytes) (info : KeyInfo) : KeyListing where
  key := key
  size := info.dataSize
  etag := (info.metadata.find? fun kv => kv.1 = "ETAG").bind (·.2)

/-- `ObjectEntry`; its constant date is left out. -/
structure ObjectEntry where
  /-- The key. -/
  key : Bytes
  /-- The size. -/
  size : UInt64
  /-- The ETag. -/
  etag : String
  deriving DecidableEq, Repr

/-- The entry for a key. -/
def ObjectEntry.ofListing (k : KeyListing) : ObjectEntry := ⟨k.key, k.size, k.etag.getD ""⟩

/-- What a listing asks for, apart from where it goes on. -/
structure Query where
  /-- The prefix. -/
  start : Bytes
  /-- The delimiter. -/
  delimiter : Bytes
  /-- `max_keys`. -/
  maxKeys : UInt32
  deriving DecidableEq, Repr

/-- `Listing`; the arguments it repeats are left out. -/
structure Listing where
  /-- More entries remain. -/
  isTruncated : Bool
  /-- Where the next page goes on. -/
  nextContinuationToken : Bytes
  /-- The keys that are listed themselves. -/
  contents : List ObjectEntry
  /-- The common prefixes. -/
  commonPrefixes : List Bytes
  deriving DecidableEq, Repr

/-- The variables of the loop. -/
structure State where
  /-- `contents`. -/
  contents : List ObjectEntry
  /-- `common_prefixes`. -/
  commonPrefixes : List Bytes
  /-- `count`. -/
  count : ℕ
  /-- `resume_key`. -/
  resumeKey : Bytes
  /-- `start_after`. -/
  startAfter : Bytes
  /-- `is_truncated`. -/
  isTruncated : Bool
  deriving DecidableEq, Repr

/-- The common prefix a key folds into, if it does. -/
def folded (q : Query) (key : Bytes) : Option Bytes :=
  if q.delimiter = [] then none
  else
    let rest := if q.start <+: key then key.drop q.start.length else key
    (cut q.delimiter rest).map fun found => q.start ++ (found.1 ++ q.delimiter)

/-- The loop over a batch, for one key. The outer loop is left with an error. -/
def listKey (q : Query) (s : State) (k : KeyListing) : Except State State :=
  match folded q k.key with
  | some p =>
    if p ∈ s.commonPrefixes then .ok { s with resumeKey := k.key }
    else if s.count = q.maxKeys.toNat then .error { s with isTruncated := true }
    else .ok { s with
      resumeKey := k.key
      commonPrefixes := s.commonPrefixes ++ [p]
      count := s.count + 1 }
  | none =>
    if s.count = q.maxKeys.toNat then .error { s with isTruncated := true }
    else .ok { s with
      resumeKey := k.key
      contents := s.contents ++ [.ofListing k]
      count := s.count + 1 }

/-- `batch`. -/
def Query.batch (q : Query) : Int32 := q.maxKeys.toInt32

/-- One round of the outer loop, with the keys of a batch. It is left with an error. -/
def listRound (q : Query) (s : State) (keys : List KeyListing) : Except State State :=
  match keys.getLast? with
  | none => .error s
  | some last => do
    let s ← keys.foldlM (listKey q) { s with startAfter := last.key }
    if keys.length < q.batch.toInt64.toUInt64.toNat then .error s else .ok s

/-- The manager: the answer of its `n`-th call of `list_keys`, for a prefix, a key to start
after, and a limit. -/
abbrev Manager := ℕ → Bytes → Bytes → Int32 → Except OmError (List KeyListing)

/-- The outer loop, from call `n` on: its result, and the number of the next call. -/
def listLoop (om : Manager) (q : Query) : ℕ → ℕ → State → Option (Outcome GatewayError State × ℕ)
  | 0, _, _ => none
  | fuel + 1, n, s =>
    match om n q.start s.startAfter q.batch with
    | .error e => some (.err (.ofOm e), n + 1)
    | .ok keys =>
      match listRound q s keys with
      | .error s => some (.ok s, n + 1)
      | .ok s => listLoop om q fuel (n + 1) s

/-- The variables before the loop. -/
def State.start (token : Bytes) : State := ⟨[], [], 0, [], token, false⟩

/-- What is returned after the loop. -/
def State.listing (s : State) : Listing where
  isTruncated := s.isTruncated
  nextContinuationToken := if s.isTruncated then s.resumeKey else []
  contents := s.contents
  commonPrefixes := s.commonPrefixes

/-- `list_objects`. -/
def listObjects (om : Manager) (q : Query) (fuel n : ℕ) (token : Bytes) :
    Option (Outcome GatewayError Listing × ℕ) :=
  if q.maxKeys = 0 then some (.ok ⟨false, [], [], []⟩, n)
  else
    (listLoop om q fuel n (.start token)).map fun r =>
      (do return (← r.1).listing, r.2)

/-! ### The manager's keys -/

/-- The keys of a bucket: finitely many, not empty, in the order of their bytes. -/
structure KeySet where
  /-- The keys. -/
  entries : List KeyListing
  /-- They ascend. -/
  ascending : entries.Pairwise fun a b => a.key < b.key
  /-- None is empty. -/
  ne_nil : ∀ k ∈ entries, k.key ≠ []

/-- A key is there. -/
def KeySet.Has (K : KeySet) (x : Bytes) : Prop := ∃ k ∈ K.entries, k.key = x

/-- The first keys with a prefix after a key. -/
def KeySet.listKeys (K : KeySet) (start startAfter : Bytes) (limit : Int32) : List KeyListing :=
  (K.entries.filter fun k => start <+: k.key ∧ startAfter < k.key).take limit.toInt.toNat

/-- **The manager**, with the keys it has at each call: it answers from the keys it has. -/
def serve (K : ℕ → KeySet) : Manager := fun n start startAfter limit =>
  .ok ((K n).listKeys start startAfter limit)

section Batch

variable {K : KeySet} {start c : Bytes}

theorem KeySet.listKeys_ascending (K : KeySet) (start c : Bytes) (limit : Int32) :
    (K.listKeys start c limit).Pairwise fun a b => a.key < b.key :=
  (K.ascending.filter _).take

theorem KeySet.mem_of_mem_listKeys {k : KeyListing} {limit : Int32}
    (h : k ∈ K.listKeys start c limit) : k ∈ K.entries ∧ start <+: k.key ∧ c < k.key := by
  have hmem := List.mem_filter.mp (List.mem_of_mem_take h)
  exact ⟨hmem.1, by simpa using hmem.2⟩

/-- **A key that is not in a batch comes after it**, and then the batch is full. -/
theorem KeySet.mem_listKeys_or {k : KeyListing} (limit : Int32) (hk : k ∈ K.entries)
    (hstart : start <+: k.key) (hc : c < k.key) : k ∈ K.listKeys start c limit ∨
      (K.listKeys start c limit).length = limit.toInt.toNat ∧
        ∀ b ∈ K.listKeys start c limit, b.key < k.key := by
  have hmem : k ∈ K.entries.filter fun k => start <+: k.key ∧ c < k.key :=
    List.mem_filter.mpr ⟨hk, by simpa using ⟨hstart, hc⟩⟩
  have hpair := K.ascending.filter fun k => start <+: k.key ∧ c < k.key
  unfold KeySet.listKeys
  generalize K.entries.filter (fun k => start <+: k.key ∧ c < k.key) = L at hmem hpair
  rw [← List.take_append_drop limit.toInt.toNat L] at hmem hpair
  rcases List.mem_append.mp hmem with h | h
  · exact .inl h
  · refine .inr ⟨?_, fun b hb => (List.pairwise_append.mp hpair).2.2 b hb k h⟩
    rw [List.length_take]
    have hne := List.length_pos_of_mem h
    rw [List.length_drop] at hne
    omega

end Batch

theorem Query.batch_toNat {q : Query} (h : q.maxKeys.toNat ≤ 1000) :
    q.batch.toInt.toNat = q.maxKeys.toNat ∧
      q.batch.toInt64.toUInt64.toNat = q.maxKeys.toNat := by
  have hall : ∀ n < 1001, (UInt32.ofNat n).toInt32.toInt.toNat = n ∧
      (UInt32.ofNat n).toInt32.toInt64.toUInt64.toNat = n := by decide +kernel
  have hq := hall q.maxKeys.toNat (by omega)
  rwa [UInt32.ofNat_toNat] at hq

/-! ### One key -/

/-- The variables after a key that is consumed. -/
def consume (q : Query) (s : State) (k : KeyListing) : State :=
  match folded q k.key with
  | some p =>
    if p ∈ s.commonPrefixes then { s with resumeKey := k.key }
    else { s with
      resumeKey := k.key
      commonPrefixes := s.commonPrefixes ++ [p]
      count := s.count + 1 }
  | none => { s with
      resumeKey := k.key
      contents := s.contents ++ [.ofListing k]
      count := s.count + 1 }

/-- The variables with another cursor and flag. -/
def State.withCursor (s : State) (c : Bytes) (truncated : Bool) : State where
  contents := s.contents
  commonPrefixes := s.commonPrefixes
  count := s.count
  resumeKey := s.resumeKey
  startAfter := c
  isTruncated := truncated

/-- A key makes a new entry of the page. -/
def IsNew (q : Query) (s : State) (k : KeyListing) : Prop :=
  ∀ p, folded q k.key = some p → p ∉ s.commonPrefixes

section Consume

variable {q : Query} {s : State} {k : KeyListing}

/-- **One key**: it is consumed, unless the page is full and the key is new. -/
theorem listKey_cases (q : Query) (s : State) (k : KeyListing) :
    listKey q s k = .ok (consume q s k) ∧
      (s.count ≤ q.maxKeys.toNat → (consume q s k).count ≤ q.maxKeys.toNat) ∨
    listKey q s k = .error { s with isTruncated := true } ∧ IsNew q s k ∧
      s.count = q.maxKeys.toNat := by
  unfold listKey consume IsNew
  rcases hfold : folded q k.key with _ | p
  · by_cases hfull : s.count = q.maxKeys.toNat
    · exact .inr ⟨if_pos hfull, by rintro _ ⟨⟩, hfull⟩
    · refine .inl ⟨if_neg hfull, fun hle => ?_⟩
      dsimp only
      omega
  · by_cases hmem : p ∈ s.commonPrefixes
    · simp [hmem]
    · by_cases hfull : s.count = q.maxKeys.toNat
      · refine .inr ⟨by simp [hmem, hfull], ?_, hfull⟩
        rintro _ ⟨⟩
        exact hmem
      · refine .inl ⟨by simp [hmem, hfull], fun hle => ?_⟩
        dsimp only
        rw [if_neg hmem]
        dsimp only
        omega

/-- **One batch**: all keys are consumed, or those before one that is new when the page is
full. -/
theorem foldlM_listKey (q : Query) : ∀ (keys : List KeyListing) (s : State),
    keys.foldlM (listKey q) s = .ok (keys.foldl (consume q) s) ∧
        (s.count ≤ q.maxKeys.toNat → (keys.foldl (consume q) s).count ≤ q.maxKeys.toNat) ∨
      ∃ D k R, keys = D ++ k :: R ∧ IsNew q (D.foldl (consume q) s) k ∧
        (D.foldl (consume q) s).count = q.maxKeys.toNat ∧
        keys.foldlM (listKey q) s =
          .error { D.foldl (consume q) s with isTruncated := true }
  | [], s => .inl ⟨rfl, id⟩
  | k :: keys, s => by
    rw [List.foldlM_cons]
    rcases listKey_cases q s k with ⟨hk, hcount⟩ | ⟨hk, hnew, hfull⟩
    · rw [hk]
      rcases foldlM_listKey q keys (consume q s k) with ⟨h, hle⟩ | ⟨D, k', R, rfl, hnew, hfull, h⟩
      · exact .inl ⟨h, fun hs => hle (hcount hs)⟩
      · exact .inr ⟨k :: D, k', R, rfl, hnew, hfull, h⟩
    · rw [hk]
      exact .inr ⟨[], k, keys, rfl, hnew, hfull, rfl⟩

/-- Keys are consumed whatever the cursor and the flag. -/
theorem foldl_consume_withCursor (q : Query) (s : State) (c : Bytes) (truncated : Bool)
    (D : List KeyListing) : D.foldl (consume q) (s.withCursor c truncated) =
      (D.foldl (consume q) s).withCursor c truncated := by
  induction D generalizing s with
  | nil => rfl
  | cons k D ih =>
    have hone : consume q (s.withCursor c truncated) k =
        (consume q s k).withCursor c truncated := by
      unfold consume
      rcases folded q k.key with _ | p
      · rfl
      · by_cases hp : p ∈ s.commonPrefixes <;> simp [State.withCursor, hp]
    rw [List.foldl_cons, hone, ih, List.foldl_cons]

/-- **One round**, with a batch that is not empty. -/
theorem listRound_cases (q : Query) {s : State} (hs : s.isTruncated = false)
    {keys : List KeyListing} {last : KeyListing} (hlast : keys.getLast? = some last) :
    (listRound q s keys =
      if keys.length < q.batch.toInt64.toUInt64.toNat then
        .error ((keys.foldl (consume q) s).withCursor last.key false)
      else .ok ((keys.foldl (consume q) s).withCursor last.key false)) ∧
        (s.count ≤ q.maxKeys.toNat → (keys.foldl (consume q) s).count ≤ q.maxKeys.toNat) ∨
    ∃ D k R, keys = D ++ k :: R ∧ IsNew q (D.foldl (consume q) s) k ∧
      (D.foldl (consume q) s).count = q.maxKeys.toNat ∧
      listRound q s keys = .error ((D.foldl (consume q) s).withCursor last.key true) := by
  have hcursor : { s with startAfter := last.key } = s.withCursor last.key false := by
    rw [State.withCursor, ← hs]
  unfold listRound
  rw [hlast]
  dsimp only
  rw [hcursor]
  rcases foldlM_listKey q keys (s.withCursor last.key false) with ⟨h, hle⟩ |
    ⟨D, k, R, hkeys, hnew, hfull, h⟩
  · rw [foldl_consume_withCursor] at h hle
    exact .inl ⟨by rw [h]; rfl, hle⟩
  · rw [foldl_consume_withCursor] at hnew hfull h
    exact .inr ⟨D, k, R, hkeys, hnew, hfull, by rw [h]; rfl⟩

end Consume

/-! ### Where the entries come from -/

/-- A key the manager answers with at some call. -/
def Manager.Offers (om : Manager) (k : KeyListing) : Prop :=
  ∃ n start c limit keys, om n start c limit = .ok keys ∧ k ∈ keys

theorem mem_contents_foldl_consume {q : Query} {e : ObjectEntry} :
    ∀ {D : List KeyListing} {s : State},
    e ∈ (D.foldl (consume q) s).contents → e ∈ s.contents ∨ ∃ k ∈ D, e = .ofListing k
  | [], _, h => .inl h
  | k :: D, s, h => by
    rw [List.foldl_cons] at h
    rcases mem_contents_foldl_consume h with h | ⟨k', hk', rfl⟩
    · unfold consume at h
      rcases hfold : folded q k.key with _ | p <;> rw [hfold] at h <;> dsimp only at h
      · rcases List.mem_append.mp h with h | h
        · exact .inl h
        · exact .inr ⟨k, List.mem_cons_self, List.mem_singleton.mp h⟩
      · split_ifs at h <;> exact .inl h
    · exact .inr ⟨k', List.mem_cons_of_mem k hk', rfl⟩

theorem mem_contents_listRound {q : Query} {s s' : State} {keys : List KeyListing}
    (h : listRound q s keys = .ok s' ∨ listRound q s keys = .error s') {e : ObjectEntry}
    (he : e ∈ s'.contents) : e ∈ s.contents ∨ ∃ k ∈ keys, e = .ofListing k := by
  unfold listRound at h
  rcases hlast : keys.getLast? with _ | last
  · rw [hlast] at h
    rcases h with h | h <;> cases h
    exact .inl he
  · rw [hlast] at h
    dsimp only at h
    rcases foldlM_listKey q keys { s with startAfter := last.key } with
      ⟨hfold, -⟩ | ⟨D, k, R, rfl, -, -, hfold⟩
    · rw [hfold] at h
      have hs' : s' = keys.foldl (consume q) { s with startAfter := last.key } := by
        dsimp only [bind, Except.bind] at h
        split_ifs at h <;> rcases h with h | h <;> cases h <;> rfl
      rw [hs'] at he
      rcases mem_contents_foldl_consume he with he | he
      · exact .inl he
      · exact .inr he
    · rw [hfold] at h
      rcases h with h | h <;> cases h
      rcases mem_contents_foldl_consume he with he | ⟨k', hk', rfl⟩
      · exact .inl he
      · exact .inr ⟨k', List.mem_append_left _ hk', rfl⟩

theorem mem_contents_listLoop {om : Manager} {q : Query} : ∀ {fuel n n' : ℕ} {s s' : State},
    listLoop om q fuel n s = some (.ok s', n') → ∀ {e : ObjectEntry}, e ∈ s'.contents →
    e ∈ s.contents ∨ ∃ k, om.Offers k ∧ e = .ofListing k
  | 0, _, _, _, _, h, _, _ => by cases h
  | fuel + 1, n, n', s, s', h, e, he => by
    rw [listLoop] at h
    rcases hom : om n q.start s.startAfter q.batch with err | keys
    · rw [hom] at h
      cases h
    · rw [hom] at h
      dsimp only at h
      have hoffers : ∀ k ∈ keys, om.Offers k := fun k hk => ⟨n, _, _, _, keys, hom, hk⟩
      rcases hround : listRound q s keys with s₁ | s₁
      · rw [hround] at h
        cases h
        rcases mem_contents_listRound (.inr hround) he with he | ⟨k, hk, rfl⟩
        · exact .inl he
        · exact .inr ⟨k, hoffers k hk, rfl⟩
      · rw [hround] at h
        rcases mem_contents_listLoop h he with he | he
        · rcases mem_contents_listRound (.inl hround) he with he | ⟨k, hk, rfl⟩
          · exact .inl he
          · exact .inr ⟨k, hoffers k hk, rfl⟩
        · exact .inr he

/-- **Every entry of a page** is that of a key of the manager. -/
theorem mem_contents_listObjects {om : Manager} {q : Query} {fuel n n' : ℕ} {token : Bytes}
    {l : Listing} (h : listObjects om q fuel n token = some (.ok l, n')) {e : ObjectEntry}
    (he : e ∈ l.contents) : ∃ k, om.Offers k ∧ e = .ofListing k := by
  unfold listObjects at h
  split at h
  · cases h
    cases he
  · obtain ⟨⟨o, n''⟩, hloop, heq⟩ := Option.map_eq_some_iff.mp h
    rcases o with s | err | _
    · cases heq
      rcases mem_contents_listLoop hloop he with he | he
      · cases he
      · exact he
    · cases heq
    · cases heq

/-! ### One call -/

/-- What is consumed between calls `n` and `n'` of the manager, from a cursor on. The keys
ascend, and no key is missed that was there all the time and comes before the key where it
stopped, if it did. -/
structure Scanned (K : ℕ → KeySet) (q : Query) (n n' : ℕ) (c : Bytes) (D : List KeyListing)
    (stop : Option KeyListing) : Prop where
  /-- The keys ascend. -/
  ascending : D.Pairwise fun a b => a.key < b.key
  /-- They come after the cursor. -/
  after : ∀ d ∈ D, c < d.key
  /-- They were there at one of the calls. -/
  source : ∀ d ∈ D ++ stop.toList, q.start <+: d.key ∧ ∃ u, n ≤ u ∧ u < n' ∧ d ∈ (K u).entries
  /-- They come before the key where it stopped. -/
  before : ∀ y ∈ stop, c < y.key ∧ ∀ d ∈ D, d.key < y.key
  /-- None is missed. -/
  complete : ∀ x, q.start <+: x → c < x → (∀ y ∈ stop, x < y.key) →
    (∀ u, n ≤ u → u < n' → (K u).Has x) → ∃ d ∈ D, d.key = x

section Scan

variable {K : ℕ → KeySet} {q : Query} {n n' : ℕ} {c : Bytes} {D : List KeyListing}
  {stop : Option KeyListing}

/-- A batch that is consumed up to a key. -/
theorem scanned_stop {k : KeyListing} {R : List KeyListing}
    (h : (K n).listKeys q.start c q.batch = D ++ k :: R) :
    Scanned K q n (n + 1) c D (some k) := by
  have hpair := (K n).listKeys_ascending q.start c q.batch
  have hmem : ∀ d ∈ D ++ k :: R, d ∈ (K n).entries ∧ q.start <+: d.key ∧ c < d.key := by
    intro d hd
    rw [← h] at hd
    exact (K n).mem_of_mem_listKeys hd
  rw [h, List.pairwise_append] at hpair
  have hk := hmem k (by simp)
  refine ⟨hpair.1, fun d hd => (hmem d (by simp [hd])).2.2, ?_, ?_, ?_⟩
  · intro d hd
    obtain ⟨hd₁, hd₂, -⟩ := hmem d (by
      rcases List.mem_append.mp hd with hd | hd
      · simp [hd]
      · simp [List.mem_singleton.mp hd])
    exact ⟨hd₂, n, le_rfl, Nat.lt_succ_self n, hd₁⟩
  · rintro _ ⟨⟩
    exact ⟨hk.2.2, fun d hd => hpair.2.2 d hd k List.mem_cons_self⟩
  · intro x hstart hc hlt hhas
    obtain ⟨d, hd, rfl⟩ := hhas n le_rfl (Nat.lt_succ_self n)
    have hdk := hlt k rfl
    rcases (K n).mem_listKeys_or q.batch hd hstart hc with hb | ⟨-, hb⟩
    · rw [h] at hb
      rcases List.mem_append.mp hb with hb | hb
      · exact ⟨d, hb, rfl⟩
      · rcases List.mem_cons.mp hb with rfl | hb
        · exact absurd hdk (lt_irrefl _)
        · exact absurd hdk ((List.pairwise_cons.mp hpair.2.1).1 d hb).asymm
    · exact absurd hdk (hb k (by rw [h]; simp)).asymm

/-- A short batch is the last one. -/
theorem scanned_last (h : ((K n).listKeys q.start c q.batch).length < q.batch.toInt.toNat) :
    Scanned K q n (n + 1) c ((K n).listKeys q.start c q.batch) none := by
  refine ⟨(K n).listKeys_ascending _ _ _, fun d hd => ((K n).mem_of_mem_listKeys hd).2.2,
    ?_, ?_, ?_⟩
  · intro d hd
    rw [Option.toList_none, List.append_nil] at hd
    obtain ⟨hd₁, hd₂, -⟩ := (K n).mem_of_mem_listKeys hd
    exact ⟨hd₂, n, le_rfl, Nat.lt_succ_self n, hd₁⟩
  · rintro _ ⟨⟩
  · intro x hstart hc _ hhas
    obtain ⟨d, hd, rfl⟩ := hhas n le_rfl (Nat.lt_succ_self n)
    rcases (K n).mem_listKeys_or q.batch hd hstart hc with hb | ⟨hlen, -⟩
    · exact ⟨d, hb, rfl⟩
    · omega

/-- A batch, and what is consumed after it. -/
theorem Scanned.cons {last : KeyListing}
    (hlast : ((K n).listKeys q.start c q.batch).getLast? = some last) (hn : n < n')
    (h : Scanned K q (n + 1) n' last.key D stop) :
    Scanned K q n n' c ((K n).listKeys q.start c q.batch ++ D) stop := by
  have hpair := (K n).listKeys_ascending q.start c q.batch
  have hmem := List.mem_of_getLast? hlast
  have hle : ∀ b ∈ (K n).listKeys q.start c q.batch, b.key ≤ last.key := by
    intro b hb
    obtain ⟨init, hinit⟩ := List.getLast?_eq_some_iff.mp hlast
    rw [hinit] at hb hpair
    rcases List.mem_append.mp hb with hb | hb
    · exact ((List.pairwise_append.mp hpair).2.2 b hb last List.mem_cons_self).le
    · rw [List.mem_singleton.mp hb]
  have hc := ((K n).mem_of_mem_listKeys hmem).2.2
  refine ⟨List.pairwise_append.mpr ⟨hpair, h.ascending, fun b hb d hd =>
    (hle b hb).trans_lt (h.after d hd)⟩, ?_, ?_, ?_, ?_⟩
  · intro d hd
    rcases List.mem_append.mp hd with hd | hd
    · exact ((K n).mem_of_mem_listKeys hd).2.2
    · exact hc.trans (h.after d hd)
  · intro d hd
    rw [List.append_assoc] at hd
    rcases List.mem_append.mp hd with hd | hd
    · obtain ⟨hd₁, hd₂, -⟩ := (K n).mem_of_mem_listKeys hd
      exact ⟨hd₂, n, le_rfl, hn, hd₁⟩
    · obtain ⟨hd₁, u, hu, hu', hd₂⟩ := h.source d hd
      exact ⟨hd₁, u, by omega, hu', hd₂⟩
  · intro y hy
    obtain ⟨hy₁, hy₂⟩ := h.before y hy
    refine ⟨hc.trans hy₁, fun d hd => ?_⟩
    rcases List.mem_append.mp hd with hd | hd
    · exact (hle d hd).trans_lt hy₁
    · exact hy₂ d hd
  · intro x hstart hcx hstop hhas
    rcases lt_or_ge last.key x with hx | hx
    · obtain ⟨d, hd, hdx⟩ := h.complete x hstart hx hstop fun u hu hu' => hhas u (by omega) hu'
      exact ⟨d, List.mem_append_right _ hd, hdx⟩
    · obtain ⟨d, hd, rfl⟩ := hhas n le_rfl hn
      rcases (K n).mem_listKeys_or q.batch hd hstart hcx with hb | ⟨-, hb⟩
      · exact ⟨d, List.mem_append_left _ hb, rfl⟩
      · exact absurd (hb last hmem) hx.not_gt

/-- **One call of `list_objects`**, whatever happens to the keys in between: it consumes keys
from its cursor on, and stops at one that is new when the page is full, or when there are no
more. -/
theorem listLoop_scanned (hpos : 0 < q.maxKeys.toNat) (hmax : q.maxKeys.toNat ≤ 1000) {fuel : ℕ} :
    ∀ {n : ℕ} {s : State} {o : Outcome GatewayError State} {n' : ℕ},
      listLoop (serve K) q fuel n s = some (o, n') → s.isTruncated = false →
      s.count ≤ q.maxKeys.toNat → n < n' ∧ ∃ D stop c', Scanned K q n n' s.startAfter D stop ∧
        o = .ok ((D.foldl (consume q) s).withCursor c' stop.isSome) ∧
        (D.foldl (consume q) s).count ≤ q.maxKeys.toNat ∧
        ∀ k ∈ stop, IsNew q (D.foldl (consume q) s) k ∧
          (D.foldl (consume q) s).count = q.maxKeys.toNat := by
  obtain ⟨hlimit, hsize⟩ := Query.batch_toNat hmax
  induction fuel with
  | zero => rintro n s o n' ⟨⟩
  | succ fuel ih =>
    intro n s o n' h hs hcount
    rw [listLoop, serve] at h
    dsimp only at h
    rcases hlast : ((K n).listKeys q.start s.startAfter q.batch).getLast? with _ | last
    · -- the manager has no keys after the cursor
      have hnil := List.getLast?_eq_none_iff.mp hlast
      have hround : listRound q s ((K n).listKeys q.start s.startAfter q.batch) = .error s := by
        rw [hnil]
        rfl
      rw [hround] at h
      cases h
      have hscan : Scanned K q n (n + 1) s.startAfter _ none :=
        scanned_last (by rw [hnil, hlimit]; exact hpos)
      rw [hnil] at hscan
      refine ⟨Nat.lt_succ_self n, [], none, s.startAfter, hscan, ?_, hcount, by rintro _ ⟨⟩⟩
      rw [State.withCursor, List.foldl_nil, Option.isSome_none, ← hs]
    · rcases listRound_cases q hs hlast with ⟨hround, hle⟩ | ⟨D, k, R, hkeys, hnew, hfull, hround⟩
      · by_cases hshort : ((K n).listKeys q.start s.startAfter q.batch).length <
          q.batch.toInt64.toUInt64.toNat
        · -- a short batch
          rw [hround, if_pos hshort] at h
          cases h
          exact ⟨Nat.lt_succ_self n, _, none, last.key, scanned_last (by omega), rfl,
            hle hcount, by rintro _ ⟨⟩⟩
        · -- a full one
          rw [hround, if_neg hshort] at h
          obtain ⟨hlt, D, stop, c', hscan, ho, hsize', hstop⟩ := ih h rfl (hle hcount)
          rw [foldl_consume_withCursor, ← List.foldl_append] at ho hsize' hstop
          exact ⟨by omega, _, stop, c', hscan.cons hlast (by omega), ho, hsize', hstop⟩
      · rw [hround] at h
        cases h
        refine ⟨Nat.lt_succ_self n, D, some k, last.key, scanned_stop hkeys, rfl, hfull.le, ?_⟩
        rintro _ ⟨⟩
        exact ⟨hnew, hfull⟩

end Scan

end ListObjects

end OzoneRust
