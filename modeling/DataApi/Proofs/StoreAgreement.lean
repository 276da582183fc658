/-
The rows of `session_chunks` and the objects they point to. Keys are made
from the prefix of the session, so with distinct prefixes an upload's key is
its own while it holds the lock on its row; what is left is the deletion that
has committed, and so given up its locks, and has its objects still to sweep.
-/
import DataApi.Lib.Blobs
import DataApi.Proofs.ChunkRows

namespace DataApi.StoreAgreement

open Relational ReadCommitted Resumption Handler ChunkLife
open ChunkRoutes (Named)

/-! ## The view of the store -/

/-- The key of an object that is put and whose row is to come. -/
def pendingKey : Stage → Option String
  | .stored _ k | .keyed _ k => some k
  | _ => none

/-- The keys of the objects to sweep. -/
def owedKeys : Stage → List String
  | .owing dead => dead.map (·.s3Key)
  | _ => []

section
variable {ι : Type} {reqs : ι → Request}

def body (reqs : ι → Request) (i : ι) : Option Bytes := (uploadOf (reqs i)).map (·.body)

/-- The upload that entered the row had this body. -/
def MadeWith (reqs : ι → Request) (log : List (ι × List (Write Row Key))) (z : ChunkRow) (b : Bytes) : Prop :=
  ∃ i u, EnteredBy log i (chunkKeyOf z) ∧ uploadOf (reqs i) = some u ∧ u.body = b

def view (reqs : ι → Request) (g : ι → Stage) (sv : Sv ι) : Blobs.View ι ChunkRow String Bytes where
  records z := z ∈ chunksT.rows sv.db
  made := MadeWith reqs sv.log
  pending i := pendingKey (g i)
  owed i k := k ∈ owedKeys (g i)
  store := sv.world.store.lookup

abbrev Agrees (reqs : ι → Request) (g : ι → Stage) (sv : Sv ι) : Prop :=
  Blobs.Agree (fun z : ChunkRow => z.s3Key) (body reqs) (view reqs g sv)

/-! ## The condition -/

/-- No two sessions have one prefix. -/
def DistinctPrefixes (db : Db) : Prop :=
  ∀ id id' pre, prefixOf id db = some pre → prefixOf id' db = some pre → id = id'

/-- A deletion has committed and has the object still to sweep. -/
def Owes (c : Clients ι Row Env Io Outcome) (j : ι) (key : String) : Prop :=
  committed (c.threads j).loc = true ∧ swept (c.threads j).loc = false ∧ c.returned j = none ∧
    ∃ d ∈ dropped (c.threads j).loc, d.s3Key = key

/-- The key of the object a client is about to put. -/
def putKey : Code Outcome → Option String
  | .op (.outer (.put key _ _)) _ => some key
  | _ => none

/-- No object is put that another client has still to sweep. -/
def PutApart (c : Clients ι Row Env Io Outcome) (i : ι) (_ : Env) : Prop :=
  ∀ key, putKey (c.threads i).prog = some key → ∀ j, j ≠ i → ¬Owes c j key

/-! ## Keys -/

/-- Distinct prefixes make one key one row. -/
theorem DistinctPrefixes.key_inj {db : Db} (h : DistinctPrefixes db) {r r' : ChunkRow} {pre pre' : String}
    (hr : prefixOf r.sessionId db = some pre) (hr' : prefixOf r'.sessionId db = some pre') (hn : Named r.pseudoId)
    (hn' : Named r'.pseudoId)
    (hk : ChunkRoutes.chunkKey pre r.pseudoId r.seq = ChunkRoutes.chunkKey pre' r'.pseudoId r'.seq) :
    chunkKeyOf r = chunkKeyOf r' := by
  obtain ⟨rfl, hpid, hseq⟩ := ChunkRoutes.chunkKey_inj hn hn' hk
  show Key.chunk r.sessionId r.pseudoId r.seq = Key.chunk r'.sessionId r'.pseudoId r'.seq
  rw [h _ _ pre hr hr', hpid, hseq]

variable {st : AppState} {c : Clients ι Row Env Io Outcome} {g : ι → Stage} {i j : ι}

/-- The row of an upload whose object is put or about to be. -/
theorem entered_of_pending {s : Stage} {req : Request} {conn : Conn} {sv : Sv ι} {k : String}
    (h : Core st req i conn sv s) (hk : pendingKey s = some k) : ∃ r now, Entered st req i conn sv r k now := by
  cases s with
  | stored r k' =>
    obtain rfl := Option.some.inj hk
    exact ⟨r, _, h⟩
  | keyed r k' =>
    obtain rfl := Option.some.inj hk
    exact ⟨r, _, h⟩
  | _ => cases hk

variable [DecidableEq ι]

/-- The key an upload is about to put its object under is nobody's. -/
theorem put_free (ho : Orderly c) (hcanon : AllCanonical c.shared.db) (hd : DistinctPrefixes c.shared.db)
    (hH : ∀ j, Holds st (reqs j) j (c.threads j).loc c.shared (g j)) {r : ChunkRow} {k : String}
    (hi : g i = .reserved r k) :
    (∀ z ∈ chunksT.rows c.shared.db, z.s3Key ≠ k) ∧ ∀ j, j ≠ i → pendingKey (g j) ≠ some k := by
  have h := (hH i).core
  rw [hi] at h
  have h : Entered st (reqs i) i (c.threads i).loc c.shared r k r := h
  obtain ⟨pre, hpre, rfl⟩ := h.addressed
  refine ⟨fun z hz hk => ?_, fun j hj hk => ?_⟩
  · obtain ⟨-, hn, pre', hpre', hkey⟩ := hcanon z hz
    have hsame := hd.key_inj hpre' hpre hn h.named (hkey.symm.trans hk)
    have hmem := mem_chunks.1 hz
    rw [hsame, h.fresh] at hmem
    cases hmem
  · -- The other upload would hold the lock on the same row.
    obtain ⟨r', now, h'⟩ := entered_of_pending (hH j).core hk
    obtain ⟨pre', hpre', hkey⟩ := h'.addressed
    have hsame := hd.key_inj hpre' hpre h'.named h.named hkey.symm
    have hlock := h'.lock
    rw [hsame] at hlock
    have := ho.exclusive _ hlock _ h.lock hj rfl
    cases this

/-! ## Moves -/

omit [DecidableEq ι] in
theorem next_pending {req : Request} {s t : Stage} {o : Operation} {r : Answer o} (hm : (protocol st req).may s o)
    (hn : (protocol st req).next s o r t) {k : String} (hp : ∀ body ct, o ≠ .outer (.put k body ct))
    (ht : pendingKey t = some k) : pendingKey s = some k := by
  by_cases ho : o = .commit
  · subst ho
    -- After a commit nothing is pending.
    exfalso
    cases r with
    | error err =>
      obtain rfl : t = .idle := hn
      cases ht
    | ok u =>
      rcases hm with rfl | ⟨r, k', rfl⟩ | ⟨dead, rfl⟩
      · obtain rfl := hn.2.2 rfl
        cases ht
      · obtain rfl := hn.1 r k' rfl
        cases ht
      · obtain rfl := hn.2.1 dead rfl
        cases ht
  · cases next_reached ho hm hn with
    | stays => exact ht
    | stored r k' body ct _ hput =>
      obtain rfl := Option.some.inj ht
      exact absurd hput (hp body ct)
    | keyed r k' hs =>
      rw [hs]
      exact ht
    | _ => cases ht

omit [DecidableEq ι] in
/-- What spares the row leaves it its upload. -/
theorem MadeWith.snoc {log : List (ι × List (Write Row Key))} {ws : List (Write Row Key)} {z : ChunkRow} {b : Bytes}
    (h : MadeWith reqs log z b) (hws : ∀ w ∈ ws, w.deletes ≠ some (chunkKeyOf z)) :
    MadeWith reqs (log ++ [(i, ws)]) z b := by
  obtain ⟨j, u, hj, hu⟩ := h
  exact ⟨j, u, hj.snoc hws, hu⟩

theorem deletes_chunk {w : Write Row Key} {z : ChunkRow} (h : w.deletes = some (chunkKeyOf z)) :
    w = .delete (chunkKeyOf z) ∧ (Key.table w.key) = .chunks := by
  cases w with
  | delete k =>
    obtain rfl := Option.some.inj h
    exact ⟨rfl, rfl⟩
  | insert r => cases h
  | update r => cases h

/-- A move on the rows: the objects stay. -/
theorem Agrees.rows {o : Operation} {r : Answer o} {l : Conn} {sv : Sv ι} {t : Stage} {e : Env}
    (hK : Agrees reqs g c.shared) (ho : Orderly c)
    (hH : ∀ j, Holds st (reqs j) j (c.threads j).loc c.shared (g j)) (hm : (protocol st (reqs i)).may (g i) o)
    (hx : machine.exec i e (c.threads i).loc c.shared o = some (some r, l, sv))
    (hn : (protocol st (reqs i)).next (g i) o r t) (hsame : sv.world.store = c.shared.world.store)
    (hput : ∀ key body ct, o ≠ .outer (.put key body ct)) : Agrees reqs (Function.update g i t) sv := by
  have hstore : sv.world.store.lookup = c.shared.world.store.lookup := by rw [hsame]
  have hpending : ∀ j k, pendingKey (Function.update g i t j) = some k → pendingKey (g j) = some k := by
    intro j k hj
    by_cases hji : j = i
    · subst hji
      rw [Function.update_self] at hj
      exact next_pending hm hn (hput k) hj
    · rwa [Function.update_of_ne hji] at hj
  have hother : ∀ j k, j ≠ i → k ∈ owedKeys (Function.update g i t j) → k ∈ owedKeys (g j) := by
    intro j k hj hk
    rwa [Function.update_of_ne hj] at hk
  cases (hH i).rows ho.unique (ho.view i) hm hx hn with
  | same rows after log =>
    refine hK.quiet rows (fun z b _ hz => ?_) hpending (fun j k hk => ?_) hstore
    · show MadeWith reqs sv.log z b
      rcases log with hlog | ⟨ws, hlog, hws⟩
      · rw [hlog]
        exact hz
      · rw [hlog]
        exact hz.snoc fun w hw hdel => hws w hw (deletes_chunk hdel).2
    · by_cases hji : j = i
      · subst hji
        have hk : k ∈ owedKeys t := by simpa [view] using hk
        cases t with
        | owing dead =>
          rcases after trivial with hs | hs
          · show k ∈ owedKeys (g j)
            rw [← hs]
            exact hk
          · cases hs
        | _ => cases hk
      · exact hother j k hji hk
  | came row key keyed filed ws log enters spares rows =>
    subst filed
    have hp₀ : pendingKey (g i) = some key := by rw [keyed]; rfl
    refine hK.publish (w := { row with s3Key := key }) hp₀ rows (fun z b _ hz => ?_) (fun b hb => ?_) (by simp [view, pendingKey])
      (fun j hj => by simp [view, Function.update_of_ne hj]) (fun j k hk => ?_) hstore
    · show MadeWith reqs sv.log z b
      rw [log]
      refine hz.snoc fun w hw hdel => ?_
      rcases spares w hw with hw | hw
      · exact hw (deletes_chunk hdel).2
      · rw [hw] at hdel; cases hdel
    · obtain ⟨u, hu, rfl⟩ := Option.map_eq_some_iff.1 hb
      have hentered : EnteredBy (c.shared.log ++ [(i, ws)]) i (chunkKeyOf row) := EnteredBy.last enters
      exact ⟨i, u, log ▸ hentered, hu, rfl⟩
    · by_cases hji : j = i
      · subst hji
        have hk : k ∈ owedKeys (.filed row key) := by simpa [view] using hk
        cases hk
      · exact hother j k hji hk
  | went dead dropped owing ws log deletes rows =>
    subst owing
    have hcore := (hH i).core
    rw [dropped] at hcore
    have hcore : Dropping i (c.threads i).loc c.shared dead := hcore
    refine hK.retract (fun z hz => ((rows z).1 hz).1) (fun z b hz hmade => ?_) hpending (fun k hk => ?_) hother hstore
    · show MadeWith reqs sv.log z b
      rw [log]
      refine hmade.snoc fun w hw hdel => ?_
      rcases deletes w hw with hw | ⟨d, hd, rfl⟩
      · exact hw (deletes_chunk hdel).2
      · -- The row deleted under this key is another one.
        obtain ⟨hmem, hnot⟩ := (rows z).1 hz
        have hkey : chunkKeyOf d = chunkKeyOf z := Option.some.inj hdel
        have hz := mem_chunks.1 hmem
        rw [← hkey, (hcore.rows d hd).2, List.mem_singleton] at hz
        obtain rfl : z = d := by simpa using hz
        exact hnot hd
    · have hk : k ∈ dead.map (·.s3Key) := by simpa [view, owedKeys] using hk
      obtain ⟨d, hd, rfl⟩ := List.mem_map.1 hk
      refine ⟨d, ?_, fun hz => ((rows d).1 hz).2 hd, rfl⟩
      refine mem_chunks.2 ?_
      rw [(hcore.rows d hd).2]
      exact List.mem_singleton.2 rfl

omit [DecidableEq ι] in
/-- A committed deletion that has not swept owes what it dropped. -/
theorem owes_of_owing (hH : Holds st (reqs j) j (c.threads j).loc c.shared (g j))
    (hF : (c.threads j).prog.Follows (protocol st (reqs j)) Replies (g j)) {k : String} (hk : k ∈ owedKeys (g j)) :
    Owes c j k := by
  cases hs : g j with
  | owing dead =>
    rw [hs] at hH hF hk
    obtain ⟨d, hd, rfl⟩ := List.mem_map.1 hk
    refine ⟨hH.core.2.1, ?_, ?_, d, hH.core.2.2 d hd, rfl⟩
    · cases hsw : swept (c.threads j).loc with
      | false => rfl
      | true => cases hH.swept hsw
    · cases hret : c.returned j with
      | none => rfl
      | some a =>
        rw [Config.returned_iff.1 hret] at hF
        rw [hF.1 dead rfl] at hd
        cases hd
  | _ =>
    rw [hs] at hk
    cases hk

theorem Agrees.done {o : Operation} {k : Answer o → Code Outcome} {r : Answer o} {l : Conn} {sv : Sv ι} {t : Stage} {e : Env}
    (hK : Agrees reqs g c.shared) (ho : Orderly c) (hcanon : AllCanonical c.shared.db)
    (hH : ∀ j, Holds st (reqs j) j (c.threads j).loc c.shared (g j))
    (hF : ∀ j, (c.threads j).prog.Follows (protocol st (reqs j)) Replies (g j)) (hd : DistinctPrefixes c.shared.db)
    (hapart : PutApart c i e) (hp : (c.threads i).prog = .op o k) (hm : (protocol st (reqs i)).may (g i) o)
    (hx : machine.exec i e (c.threads i).loc c.shared o = some (some r, l, sv))
    (hn : (protocol st (reqs i)).next (g i) o r t) : Agrees reqs (Function.update g i t) sv := by
  have rows : sv.world.store = c.shared.world.store → (∀ key body ct, o ≠ .outer (.put key body ct)) →
      Agrees reqs (Function.update g i t) sv := fun hs hput => hK.rows ho hH hm hx hn hs hput
  cases o with
  | query via q =>
    refine rows ?_ (by simp)
    cases via with
    | tx => rcases query_tx_done hx with ⟨_, _, _, rfl⟩ | ⟨_, _, _, _, _, -, -, -, -, -, -, -, -, rfl⟩ <;> rfl
    | pool => rcases query_pool_done hx with ⟨_, _, _, rfl⟩ | ⟨_, _, _, _, -, -, -, -, -, -, -, rfl⟩ <;> rfl
  | begin => exact rows (by rcases begin_done hx with ⟨_, _, _, rfl⟩ | ⟨_, _, rfl⟩ <;> rfl) (by simp)
  | commit => exact rows (by rcases commit_done hx with ⟨_, _, _, rfl⟩ | ⟨_, _, rfl⟩ <;> rfl) (by simp)
  | rollback => exact rows (by rw [(rollback_done hx).2]; rfl) (by simp)
  | outer x =>
    obtain ⟨hr, -, rfl⟩ := outer_done hx
    cases x with
    | put key bd ct =>
      obtain ⟨row, u, hs, hu, rfl⟩ := hm
      have hr : r = (c.shared.world.store.put e.storeFails key u.body).1 := hr
      cases r with
      | error err =>
        obtain rfl : t = g i := hn
        have hstore := ObjectStore.put_error hr.symm
        rw [Function.update_eq_self]
        exact hK.quiet (fun _ => Iff.rfl) (fun _ _ _ h => h) (fun _ _ h => h) (fun _ _ h => h)
          (congrArg ObjectStore.lookup hstore)
      | ok _ =>
        obtain rfl := hn row key hs
        obtain ⟨hrecords, hpending⟩ := put_free ho hcanon hd hH hs
        refine hK.puts (i := i) (k := key) (b := u.body) (by simp [body, hu]) hrecords hpending (fun j hj => ?_) rfl rfl
          (by simp [view, pendingKey]) (fun j hj => by simp [view, Function.update_of_ne hj]) (fun j k' hk => ?_)
          (ObjectStore.lookup_put_self hr.symm) fun k' hk => ObjectStore.lookup_put_other hk
        · by_cases hji : j = i
          · subst hji
            have hj : key ∈ owedKeys (g j) := hj
            rw [hs] at hj
            cases hj
          · exact hapart key (by rw [hp]; rfl) j hji (owes_of_owing (hH j) (hF j) hj)
        · by_cases hji : j = i
          · subst hji
            have hk : k' ∈ owedKeys (.stored row key) := by simpa [view] using hk
            cases hk
          · simpa [view, Function.update_of_ne hji] using hk
    | deleteMany keys =>
      obtain ⟨dead, hs, rfl⟩ := hm
      obtain rfl : t = .ended := hn
      refine hK.sweep (i := i) rfl rfl (fun j k' hk => ?_) (fun j k' hk => ?_) fun k' hk => ?_
      · by_cases hji : j = i
        · subst hji
          have hk : pendingKey .ended = some k' := by simpa [view] using hk
          cases hk
        · simpa [view, Function.update_of_ne hji] using hk
      · by_cases hji : j = i
        · subst hji
          have hk : k' ∈ owedKeys .ended := by simpa [view] using hk
          cases hk
        · simpa [view, Function.update_of_ne hji] using hk
      · refine ObjectStore.lookup_deleteMany_other fun hm => hk ?_
        show k' ∈ owedKeys (g i)
        rw [hs]
        exact hm
    | _ => exact rows rfl (by simp)

/-! ## Runs -/

variable {sv₀ : Sv ι}

/-- In every run in which prefixes are distinct and no object is put that
another client has still to sweep. -/
theorem run_agrees {guard : Clients ι Row Env Io Outcome → ι → Env → Prop} (hreqs : ∀ i, Touches (reqs i))
    (hstart : sv₀.Quiescent) (hempty : chunksT.rows sv₀.db = [])
    (hguard : ∀ c i e, guard c i e → PutApart c i e ∧ DistinctPrefixes c.shared.db)
    (h : Run machine guard (Service.start st reqs sv₀) c) : AllCanonical c.shared.db ∧ ∃ g, Agrees reqs g c.shared := by
  obtain ⟨hcanon, -, g, hK, -⟩ := run_chunks (K := fun g c => Agrees reqs g c.shared) hreqs hstart hempty
    (by
      refine ⟨fun z hz => ?_, fun z z' hz => ?_, fun i k hk => ?_, fun i k z hk => ?_, fun i j k hk => ?_, fun i k z hk => ?_,
        fun i j k hk => ?_⟩
      · exact absurd hz (by rw [view, Service.start, hempty]; simp)
      · exact absurd hz (by rw [view, Service.start, hempty]; simp)
      all_goals cases hk)
    (fun c g i o k hK _ => hK)
    (fun c g i e o k r l sv t ho hcanon hH hF hK hg hp hm hx hn _ =>
      hK.done ho hcanon hH hF (hguard c i e hg).2 (hguard c i e hg).1 hp hm hx hn)
    (fun c g i e a t hK _ _ _ ht _ => by
      refine hK.quiet (fun _ => Iff.rfl) (fun _ _ _ h => h) (fun j k hk => ?_) (fun j k hk => ?_) rfl
      · by_cases hji : j = i
        · subst hji
          have hk : pendingKey t = some k := by simpa [view] using hk
          rcases ht with rfl | rfl
          · exact hk
          · cases hk
        · simpa [view, Function.update_of_ne hji] using hk
      · by_cases hji : j = i
        · subst hji
          have hk : k ∈ owedKeys t := by simpa [view] using hk
          rcases ht with rfl | rfl
          · exact hk
          · cases hk
        · simpa [view, Function.update_of_ne hji] using hk) h
  exact ⟨hcanon, g, hK⟩

/-- No session is entered: the prefixes stay distinct. -/
theorem run_prefixes {guard : Clients ι Row Env Io Outcome → ι → Env → Prop} (hreqs : ∀ i, Touches (reqs i))
    (hcreate : ∀ i, isCreate (reqs i) = false) (hstart : sv₀.Quiescent) (hempty : chunksT.rows sv₀.db = [])
    (h : Run machine guard (Service.start st reqs sv₀) c) (id : Uuid) : prefixOf id c.shared.db = prefixOf id sv₀.db := by
  obtain ⟨-, hL, -⟩ := run_chunks (K := fun _ _ => True) hreqs hstart hempty trivial (fun _ _ _ _ _ _ _ => trivial)
    (fun _ _ _ _ _ _ _ _ _ _ _ _ _ _ _ _ _ _ _ _ _ => trivial) (fun _ _ _ _ _ _ _ _ _ _ _ _ => trivial) h
  rw [Run.replay hstart.log (Orderly.start hstart) h]
  refine hL.induct (I := fun log => prefixOf id (replay sv₀.db log) = prefixOf id sv₀.db) rfl fun log i ws _ ih hc => ?_
  rw [replay_append]
  rcases hc.sessions id with hsame | ⟨hcr, -⟩
  · exact hsame.trans ih
  · rw [hcreate i] at hcr
    cases hcr

/-- With distinct prefixes, in every run in which no upload puts an object
that a committed deletion has still to sweep: each chunk row's object is what
the upload that entered the row carried, as long as the row is there. -/
theorem rows_have_objects (st : AppState) (reqs : ι → Request) (hreqs : ∀ i, Touches (reqs i))
    (hcreate : ∀ i, isCreate (reqs i) = false) (sv₀ : Sv ι) (hstart : sv₀.Quiescent) (hempty : chunksT.rows sv₀.db = [])
    (hdistinct : DistinctPrefixes sv₀.db) {c : Clients ι Row Env Io Outcome}
    (h : Run machine PutApart (Service.start st reqs sv₀) c) :
    ∀ z ∈ chunksT.rows c.shared.db, ∃ i u, EnteredBy c.shared.log i (chunkKeyOf z) ∧ uploadOf (reqs i) = some u ∧
      c.shared.world.store.lookup z.s3Key = some u.body := by
  have hprefixes : ∀ c, Run machine PutApart (Service.start st reqs sv₀) c → DistinctPrefixes c.shared.db := by
    intro c hc id id' pre hid hid'
    rw [run_prefixes hreqs hcreate hstart hempty hc] at hid hid'
    exact hdistinct id id' pre hid hid'
  obtain ⟨-, g, hK⟩ := run_agrees hreqs hstart hempty (fun c i e hg => hg) (h.strengthen hprefixes)
  intro z hz
  obtain ⟨b, ⟨i, u, hi, hu, rfl⟩, hstore⟩ := hK.kept z hz
  exact ⟨i, u, hi, hu, hstore⟩

/-! ## Reading back -/

omit [DecidableEq ι] in
theorem download_run {sid : Uuid} {raw : String} {seq : Int} {pid : PseudoId} (hpid : PseudoId.newOrMixed raw = .ok pid) :
    (ChunkRoutes.download sid raw seq).run = .op (.query .pool (Chunks.getSql sid pid seq)) fun r =>
      match r with
      | .error err => .ret (.error (.database err))
      | .ok rows =>
        match (chunksT.rows rows).head? with
        | none => .ret (.error (.notFound s!"chunk {seq} not found for session {sid.text} / {pid}"))
        | some row => (storeGet row.s3Key).run := by
  rw [ChunkRoutes.download, hpid]
  show Prog.op _ _ = _
  congr 1
  funext r
  cases r with
  | error err => rfl
  | ok rows =>
    cases hx : (chunksT.rows rows).head? with
    | none => simp [Prog.bind, ExceptT.bindCont, ofDb, hx, pure, ExceptT.pure, ExceptT.mk, throw, throwThe, MonadExceptOf.throw]
    | some row => simp [Prog.bind, ExceptT.bindCont, ofDb, hx, pure, ExceptT.pure, ExceptT.mk, ExceptT.run]

theorem storeGet_answer {sv : Sv ι} {env : Nat → Env} {n : Nat} {conn : Conn} {key : String} :
    (exec i env n conn sv (storeGet key).run).1 = sv.world.store.get (env n).storeFails key := by
  show (exec i env (n + 1) _ _ (ofResult (sv.world.store.get (env n).storeFails key)).run).1 = _
  cases sv.world.store.get (env n).storeFails key <;> rfl

/-- What a download answers, on its own. -/
def downloaded (sv : Sv ι) (i : ι) (env : Nat → Env) (z : ChunkRow) : Except AppError Bytes :=
  (exec i env 0 {} sv (ChunkRoutes.download z.sessionId z.pseudoId.raw z.seq).run).1

theorem downloaded_row {sv : Sv ι} (hu : KeysUnique sv.db) {z : ChunkRow} (hz : z ∈ chunksT.rows sv.db)
    (hn : Named z.pseudoId) {b : Bytes} (hb : sv.world.store.lookup z.s3Key = some b) {env : Nat → Env}
    (hdb : (env 0).fails = false) (hstore : (env 1).storeFails z.s3Key = false) : downloaded sv i env z = .ok b := by
  have hpid : PseudoId.newOrMixed z.pseudoId.raw = .ok z.pseudoId := by
    unfold PseudoId.newOrMixed
    rw [if_pos (by simpa [Named] using hn)]
  have hat : ∀ x, Chunks.at' z.sessionId z.pseudoId z.seq x = true → key (chunksT.put x) = key (chunksT.put z) := by
    intro x hx
    simp only [Chunks.at', Chunks.ofPair, Bool.and_eq_true, decide_eq_true_eq] at hx
    obtain ⟨⟨h₁, h₂⟩, h₃⟩ := hx
    show Key.chunk x.sessionId x.pseudoId x.seq = Key.chunk z.sessionId z.pseudoId z.seq
    rw [h₁, h₂, h₃]
  -- The row is the only one the statement selects.
  have hrows : ∀ x ∈ (chunksT.rows sv.db).filter (Chunks.at' z.sessionId z.pseudoId z.seq), x = z := by
    intro x hx
    obtain ⟨hx, hp⟩ := List.mem_filter.1 hx
    have h₁ := hu.lookup_eq (chunksT.mem_rows.1 hx)
    rw [hat x hp, hu.lookup_eq (chunksT.mem_rows.1 hz)] at h₁
    exact (chunksT.put_inj (Option.some.inj h₁)).symm
  have hhead : ((chunksT.rows sv.db).filter (Chunks.at' z.sessionId z.pseudoId z.seq)).head? = some z := by
    have hmem : z ∈ (chunksT.rows sv.db).filter (Chunks.at' z.sessionId z.pseudoId z.seq) :=
      List.mem_filter.2 ⟨hz, by simp [Chunks.at', Chunks.ofPair]⟩
    cases hl : (chunksT.rows sv.db).filter (Chunks.at' z.sessionId z.pseudoId z.seq) with
    | nil => rw [hl] at hmem; cases hmem
    | cons x xs => rw [hrows x (by rw [hl]; simp)]; rfl
  have hsel : (chunksT.rows ((Server.look sv).rows.filter (chunksT.is (Chunks.at' z.sessionId z.pseudoId z.seq)))).head? =
      some z := by
    rw [chunksT.rows_filter_is]
    exact hhead
  rw [downloaded, download_run hpid]
  simp only [exec, ReadCommitted.perform, act]
  have hf : (StepEnv.fails (env 0) : Bool) = false := hdb
  have hget : sv.world.store.get (env 1).storeFails z.s3Key = .ok b := by
    simp [ObjectStore.get, hstore, hb]
  simp only [hf, plan, Chunks.getSql, Table.select, Stmt.run, Bool.false_eq_true, if_false, hsel]
  rw [storeGet_answer]
  exact hget

/-- Sequential runs in which no two sessions have one prefix: the download of
each chunk row answers what the upload that entered the row carried. -/
theorem downloads_agree (st : AppState) (reqs : ι → Request) (hreqs : ∀ i, Touches (reqs i)) (sv₀ : Sv ι)
    (hstart : sv₀.Quiescent) (hempty : chunksT.rows sv₀.db = []) {c : Clients ι Row Env Io Outcome}
    (h : Run machine (fun c i e => Service.Sequential c i e ∧ DistinctPrefixes c.shared.db)
      (Service.start st reqs sv₀) c) :
    ∀ z ∈ chunksT.rows c.shared.db, ∃ j u, EnteredBy c.shared.log j (chunkKeyOf z) ∧ uploadOf (reqs j) = some u ∧
      ∀ i env, (env 0).fails = false → (env 1).storeFails z.s3Key = false → downloaded c.shared i env z = .ok u.body := by
  -- A deletion that is not over is the only one under way.
  have hguard : ∀ (c : Clients ι Row Env Io Outcome) i e, Service.Sequential c i e ∧ DistinctPrefixes c.shared.db →
      PutApart c i e ∧ DistinctPrefixes c.shared.db := by
    intro c i e hg
    refine ⟨fun key _ j hj howes => ?_, hg.2⟩
    obtain ⟨hc, -, hret, -⟩ := howes
    rcases hg.1.turn j hj with ⟨hhist, -⟩ | hret'
    · rw [committed, List.isEmpty_iff.1 hhist] at hc
      cases hc
    · rw [hret] at hret'
      cases hret'
  obtain ⟨hcanon, g, hK⟩ := run_agrees hreqs hstart hempty hguard h
  intro z hz
  obtain ⟨b, ⟨j, u, hj, hu, rfl⟩, hstore⟩ := hK.kept z hz
  exact ⟨j, u, hj, hu, fun i env => downloaded_row (Run.orderly (Orderly.start hstart) h).unique hz (hcanon z hz).2.1 hstore⟩

end

/-! ## Samples -/

/-- An upload, a wipe of the speaker's audio, and another upload. -/
def sampleRequests : Fin 3 → Request
  | 0 => .upload "bot" (Sample.speakerChunk 'a' [1])
  | 1 => .wipeParticipantAudio "bot" Sample.sessionId Sample.speaker
  | 2 => .upload "bot" (Sample.speakerChunk 'b' [2])

def sampleStart : Clients (Fin 3) Row Env Io Outcome :=
  Service.start Sample.state sampleRequests (Sample.server [.session Sample.session])

theorem sample_touches : ∀ i, Touches (sampleRequests i) := by
  intro i
  match i with
  | 0 => trivial
  | 1 => trivial
  | 2 => trivial

theorem distinct_of_rows {db : Db}
    (h : ∀ s ∈ sessionsT.rows db, ∀ s' ∈ sessionsT.rows db, s.s3Prefix = s'.s3Prefix → s.id = s'.id) :
    DistinctPrefixes db := by
  have row : ∀ {id pre}, prefixOf id db = some pre → ∃ s ∈ sessionsT.rows db, s.id = id ∧ s.s3Prefix = pre := by
    intro id pre hp
    obtain ⟨s, hs, hpre⟩ := prefixOf_some hp
    obtain ⟨hmem, hkey⟩ := lookup_mem hs
    exact ⟨s, sessionsT.mem_rows.2 hmem, Key.session.inj hkey, hpre⟩
  intro id id' pre hp hp'
  obtain ⟨s, hs, rfl, hpre⟩ := row hp
  obtain ⟨s', hs', rfl, hpre'⟩ := row hp'
  exact h s hs s' hs' (hpre.trans hpre'.symm)

theorem sample_distinct : DistinctPrefixes [.session Sample.session] := distinct_of_rows (by decide)

instance {n : Nat} (c : Clients (Fin n) Row Env Io Outcome) (j : Fin n) (key : String) : Decidable (Owes c j key) :=
  inferInstanceAs (Decidable (_ ∧ _))

instance {n : Nat} (c : Clients (Fin n) Row Env Io Outcome) (i : Fin n) (e : Env) : Decidable (PutApart c i e) :=
  decidable_of_iff (∀ key ∈ putKey (c.threads i).prog, ∀ j, j ≠ i → ¬Owes c j key) Iff.rfl

/-- The upload waits until the wipe is over. -/
theorem rows_have_objects_sample : ∃ c : Clients (Fin 3) Row Env Io Outcome, ∃ z ∈ chunksT.rows c.shared.db,
    ∃ i u, EnteredBy c.shared.log i (chunkKeyOf z) ∧ uploadOf (sampleRequests i) = some u ∧
      c.shared.world.store.lookup z.s3Key = some u.body := by
  have hrun : (sampleStart.play machine (Sample.moves 0 [(0, 17), (1, 17), (2, 17)])).map (fun c =>
      (chunksT.rows c.shared.db).length) = some 1 := by decide +kernel
  have hguard : sampleStart.Guarded machine PutApart (Sample.moves 0 [(0, 17), (1, 17), (2, 17)]) := by decide +kernel
  obtain ⟨c, hc, hlen⟩ := Option.map_eq_some_iff.1 hrun
  obtain ⟨z, hz⟩ := List.length_eq_one_iff.1 hlen
  have hmem : z ∈ chunksT.rows c.shared.db := by rw [hz]; simp
  refine ⟨c, z, hmem, ?_⟩
  exact rows_have_objects Sample.state sampleRequests sample_touches (by decide) (Sample.server [.session Sample.session])
    ⟨by decide, rfl, rfl⟩ rfl sample_distinct (Run.play hguard .nil hc) z hmem

/-- The wipe has committed when the second upload enters its row, with the
number and so the key of the row that is gone; then the wipe deletes the
object. -/
theorem wipe_sweeps_upload : DistinctPrefixes (Sample.server (ι := Fin 3) [.session Sample.session]).db ∧
    ∃ c : Clients (Fin 3) Row Env Io Outcome,
      Run machine (fun _ _ e => e.fails = false ∧ ∀ key, e.storeFails key = false) sampleStart c ∧
      ∃ z ∈ chunksT.rows c.shared.db, c.shared.world.store.lookup z.s3Key = none := by
  have hrun : (sampleStart.play machine (Sample.moves 0 [(0, 17), (1, 10), (2, 17), (1, 7)])).map (fun c =>
      (chunksT.rows c.shared.db).map fun z => c.shared.world.store.lookup z.s3Key) = some [none] := by decide +kernel
  have hguard : sampleStart.Guarded machine (fun _ _ e => e.fails = false ∧ ∀ key, e.storeFails key = false)
      (Sample.moves 0 [(0, 17), (1, 10), (2, 17), (1, 7)]) := by
    refine (Config.guarded_of_all (fun _ _ _ => trivial) _ : sampleStart.Guarded machine (fun _ _ _ => True) _).mono
      fun c m hm _ => ?_
    obtain ⟨k, hk⟩ := Sample.moves_env hm
    rw [hk]
    exact ⟨rfl, fun _ => rfl⟩
  obtain ⟨c, hc, hr⟩ := Option.map_eq_some_iff.1 hrun
  have hnone : ∃ z ∈ chunksT.rows c.shared.db, c.shared.world.store.lookup z.s3Key = none := by
    have hmem : none ∈ (chunksT.rows c.shared.db).map fun z => c.shared.world.store.lookup z.s3Key := by rw [hr]; simp
    obtain ⟨z, hz, h⟩ := List.mem_map.1 hmem
    exact ⟨z, hz, h⟩
  exact ⟨sample_distinct, c, Run.play hguard .nil hc, hnone⟩

/-- Two sessions, each with an upload; `p` is the prefix of the second. -/
def samplePair (p : String) : Fin 4 → Request
  | 0 => .createSession "bot" Sample.createInput
  | 1 => .createSession "bot" { Sample.createInput with id := 2, s3Prefix := p }
  | 2 => .upload "bot" (Sample.chunk 'a' [1])
  | 3 => .upload "bot" { Sample.chunk 'a' [2] with sessionId := 2 }

def pairSchedule : List (Fin 4 × Env) := Sample.moves 0 [(0, 5), (1, 5), (2, 17), (3, 17)]

theorem pair_touches (p : String) : ∀ i, Touches (samplePair p i) := by
  intro i
  match i with
  | 0 => trivial
  | 1 => trivial
  | 2 => trivial
  | 3 => trivial

/-- The first row, and what its download answers. -/
def firstDownload (c : Clients (Fin 4) Row Env Io Outcome) : Option (Uuid × Option Bytes) :=
  (chunksT.rows c.shared.db).head?.map fun z => (z.sessionId, (downloaded c.shared 0 Sample.env z).toOption)

theorem firstDownload_eq {c : Clients (Fin 4) Row Env Io Outcome} {id : Uuid} {b : Bytes}
    (h : firstDownload c = some (id, some b)) :
    ∃ z ∈ chunksT.rows c.shared.db, z.sessionId = id ∧ downloaded c.shared 0 Sample.env z = .ok b := by
  obtain ⟨z, hz, hr⟩ := Option.map_eq_some_iff.1 h
  simp only [Prod.mk.injEq] at hr
  refine ⟨z, List.mem_of_mem_head? hz, hr.1, ?_⟩
  cases hd : downloaded c.shared 0 Sample.env z with
  | error e => rw [hd] at hr; cases hr.2
  | ok b' =>
    rw [hd] at hr
    exact congrArg Except.ok (Option.some.inj hr.2)

theorem downloads_agree_sample : ∃ c : Clients (Fin 4) Row Env Io Outcome, ∃ z ∈ chunksT.rows c.shared.db,
    z.sessionId = Sample.sessionId ∧ ∃ j u, EnteredBy c.shared.log j (chunkKeyOf z) ∧
      uploadOf (samplePair "s2" j) = some u ∧ downloaded c.shared 0 Sample.env z = .ok u.body := by
  have hrun : ((Service.start Sample.state (samplePair "s2") (Sample.server [])).play machine pairSchedule).map
      firstDownload = some (some (Sample.sessionId, some [1])) := by decide +kernel
  have hturn := Sample.sequential (c := Service.start Sample.state (samplePair "s2") (Sample.server [])) (n := 0)
    (l := [(0, 5), (1, 5), (2, 17), (3, 17)]) (by decide +kernel)
  have hdistinct : (Service.start Sample.state (samplePair "s2") (Sample.server [])).Guarded machine
      (fun c _ _ => ∀ s ∈ sessionsT.rows c.shared.db, ∀ s' ∈ sessionsT.rows c.shared.db, s.s3Prefix = s'.s3Prefix →
        s.id = s'.id) pairSchedule := by decide +kernel
  obtain ⟨c, hc, hr⟩ := Option.map_eq_some_iff.1 hrun
  obtain ⟨z, hz, hid, -⟩ := firstDownload_eq hr
  obtain ⟨j, u, hj, hu, hdown⟩ := downloads_agree Sample.state (samplePair "s2") (pair_touches "s2") (Sample.server [])
    ⟨by decide, rfl, rfl⟩ rfl
    (Run.play ((hturn.and hdistinct).mono fun c m _ h => ⟨h.1, distinct_of_rows h.2⟩) .nil hc) z hz
  exact ⟨c, z, hz, hid, j, u, hj, hu, hdown 0 Sample.env rfl rfl⟩

/-- With one prefix, the second upload overwrites the first session's object. -/
theorem shared_prefix_overwrites : ∃ c : Clients (Fin 4) Row Env Io Outcome,
    Run machine Service.Sequential (Service.start Sample.state (samplePair "s1") (Sample.server [])) c ∧
    (∀ i u, uploadOf (samplePair "s1" i) = some u → u.sessionId = Sample.sessionId → u.body = [1]) ∧
    ∃ z ∈ chunksT.rows c.shared.db, z.sessionId = Sample.sessionId ∧ downloaded c.shared 0 Sample.env z = .ok [2] := by
  have hrun : ((Service.start Sample.state (samplePair "s1") (Sample.server [])).play machine pairSchedule).map
      firstDownload = some (some (Sample.sessionId, some [2])) := by decide +kernel
  have hguard := Sample.sequential (c := Service.start Sample.state (samplePair "s1") (Sample.server [])) (n := 0)
    (l := [(0, 5), (1, 5), (2, 17), (3, 17)]) (by decide +kernel)
  obtain ⟨c, hc, hr⟩ := Option.map_eq_some_iff.1 hrun
  refine ⟨c, Run.play hguard .nil hc, fun i u hu hid => ?_, firstDownload_eq hr⟩
  match i with
  | 0 => cases hu
  | 1 => cases hu
  | 2 =>
    obtain rfl := Option.some.inj hu
    rfl
  | 3 =>
    obtain rfl := Option.some.inj hu
    exact absurd hid (by decide)

end DataApi.StoreAgreement
