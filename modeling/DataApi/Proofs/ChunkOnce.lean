/-
Uploads of one triple. The row an upload enters is what its retries are
recognised by, and an upload enters one only where no row has its triple; so
a triple is ingested at most once as long as no upload of it is under way
after such a row was wiped.
-/
import DataApi.Proofs.ChunkRows

namespace DataApi.ChunkOnce

open Relational ReadCommitted Resumption Handler ChunkLife

section
variable {ι : Type} [DecidableEq ι] {st : AppState} {reqs : ι → Request}

/-- A row of the triple was deleted, and the deletion is committed. -/
def Wiped (c : Clients ι Row Env Io Outcome) (t : Triple) : Prop :=
  ∃ j, committed (c.threads j).loc = true ∧ ∃ d ∈ dropped (c.threads j).loc, tripleOf d = t

/-- No upload that has still to commit carries a triple that was wiped. -/
def NotAfterWipe (st : AppState) (reqs : ι → Request) (c : Clients ι Row Env Io Outcome) (i : ι) (_ : Env) : Prop :=
  ∀ t, tripleOfRequest st (reqs i) = some t → committed (c.threads i).loc = false → ¬Wiped c t

/-- The upload answered that its chunk is no duplicate, or announced it. -/
def Ingested (c : Clients ι Row Env Io Outcome) (i : ι) : Prop :=
  announced (c.threads i).loc = true ∨ ∃ r, c.returned i = some (.ok (.uploaded r)) ∧ r.deduplicated = false

/-- A filed row is there until it is wiped, and no other upload filed its
triple. -/
structure Once (g : ι → Stage) (c : Clients ι Row Env Io Outcome) : Prop where
  remembered : ∀ i r k, g i = .filed r k → ¬Absent (tripleOf r) c.shared.db ∨ Wiped c (tripleOf r)
  single : ∀ i j r r' k k', g i = .filed r k → g j = .filed r' k' → tripleOf r = tripleOf r' → i = j

variable {c : Clients ι Row Env Io Outcome} {i : ι} {p : Code Outcome} {l : Conn} {sv : Sv ι} {t : Triple}

omit [DecidableEq ι] in
theorem told_of_hist {o : Operation} {r : Answer o} (h : l.hist = (c.threads i).loc.hist ++ [⟨o, r⟩]) :
    (committed (c.threads i).loc = true → committed l = true) ∧ ∀ d ∈ dropped (c.threads i).loc, d ∈ dropped l := by
  simp only [committed, dropped, h, List.any_append, List.flatMap_append, List.mem_append, Bool.or_eq_true]
  exact ⟨.inl, fun d => .inl⟩

/-- What was wiped stays so. -/
theorem Wiped.put (h : Wiped c t) (hc : committed (c.threads i).loc = true → committed l = true)
    (hd : ∀ d ∈ dropped (c.threads i).loc, d ∈ dropped l) : Wiped (c.put i ⟨p, l⟩ sv) t := by
  obtain ⟨j, hj, d, hmem, ht⟩ := h
  by_cases hji : j = i
  · subst hji
    exact ⟨j, by simpa using hc hj, d, by simpa using hd d hmem, ht⟩
  · refine ⟨j, ?_, d, ?_, ht⟩ <;> rw [Config.put_other _ _ _ hji]
    · exact hj
    · exact hmem

omit [DecidableEq ι] in
theorem not_absent {db : Db} : ¬Absent t db ↔ ∃ z ∈ chunksT.rows db, tripleOf z = t := by
  simp [Absent]

theorem Once.done {g : ι → Stage} {e : Env} {o : Operation} {k : Answer o → Code Outcome} {r : Answer o} {s : Stage}
    (ho : Orderly c) (hH : ∀ j, Holds st (reqs j) j (c.threads j).loc c.shared (g j)) (hK : Once g c)
    (hguard : NotAfterWipe st reqs c i e) (hm : (protocol st (reqs i)).may (g i) o)
    (hx : machine.exec i e (c.threads i).loc c.shared o = some (some r, l, sv))
    (hn : (protocol st (reqs i)).next (g i) o r s) (hHs : Holds st (reqs i) i l sv s) :
    Once (Function.update g i s) (c.put i ⟨k r, l⟩ sv) := by
  obtain ⟨hcommit, htold⟩ := told_of_hist (exec_hist hx)
  have hwiped : ∀ {t}, Wiped c t → Wiped (c.put i ⟨k r, l⟩ sv) t := fun hw => hw.put hcommit htold
  -- Who stands where a row is filed stood there, unless the row has just come.
  have before : (∀ r k, s = .filed r k → g i = .filed r k) →
      ∀ j r k, Function.update g i s j = .filed r k → g j = .filed r k := by
    intro hs j r k hf
    by_cases hji : j = i
    · subst hji
      exact hs r k (by simpa using hf)
    · rwa [Function.update_of_ne hji] at hf
  -- As long as no row goes, a filed row is remembered.
  have grown : (∀ z, z ∈ chunksT.rows c.shared.db → z ∈ chunksT.rows sv.db) → ∀ j row k', g j = .filed row k' →
      ¬Absent (tripleOf row) sv.db ∨ Wiped (c.put i ⟨k r, l⟩ sv) (tripleOf row) := by
    intro hsub j row k' hf
    refine (hK.remembered j row k' hf).imp (fun ha => ?_) hwiped
    obtain ⟨z, hz, ht⟩ := not_absent.1 ha
    exact not_absent.2 ⟨z, hsub z hz, ht⟩
  cases (hH i).rows ho.unique (ho.view i) hm hx hn with
  | same rows after log =>
    have hs : ∀ r k, s = .filed r k → g i = .filed r k := by
      rintro r k rfl
      rcases after trivial with hs | hs
      · exact hs.symm
      · cases hs
    exact ⟨fun j r' k' hf => grown (fun z hz => (rows z).2 hz) j r' k' (before hs j r' k' hf),
      fun j j' r₁ r₂ k₁ k₂ h₁ h₂ => hK.single j j' r₁ r₂ k₁ k₂ (before hs j r₁ k₁ h₁) (before hs j' r₂ k₂ h₂)⟩
  | came row key keyed filed ws log enters spares rows =>
    subst filed
    have hcore := (hH i).core
    rw [keyed] at hcore
    have hcore : Entered st (reqs i) i (c.threads i).loc c.shared row key { row with s3Key := key } := hcore
    have hopen : committed (c.threads i).loc = false := by
      cases hc : committed (c.threads i).loc with
      | false => rfl
      | true =>
        have := (hH i).committed hc
        rw [keyed] at this
        exact this.elim
    -- No other upload filed this triple: its row would be there, or wiped.
    have hfirst : ∀ j r' k', g j = .filed r' k' → tripleOf r' ≠ tripleOf row := by
      intro j r' k' hf ht
      have hr := hK.remembered j r' k' hf
      rw [ht] at hr
      rcases hr with hr | hr
      · exact hr hcore.absent
      · exact hguard _ hcore.triple hopen hr
    refine ⟨fun j r' k' hf => ?_, fun j j' r₁ r₂ k₁ k₂ h₁ h₂ ht => ?_⟩
    · by_cases hji : j = i
      · subst hji
        obtain ⟨rfl, rfl⟩ : row = r' ∧ key = k' := by simpa using hf
        exact .inl (not_absent.2 ⟨_, (rows _).2 (.inr rfl), rfl⟩)
      · rw [Function.update_of_ne hji] at hf
        exact grown (fun z hz => (rows z).2 (.inl hz)) j r' k' hf
    · by_cases hj : j = i
      · by_cases hj' : j' = i
        · rw [hj, hj']
        · rw [Function.update_of_ne hj'] at h₂
          obtain ⟨rfl, -⟩ : row = r₁ ∧ key = k₁ := by simpa [hj] using h₁
          exact absurd ht.symm (hfirst j' r₂ k₂ h₂)
      · rw [Function.update_of_ne hj] at h₁
        by_cases hj' : j' = i
        · obtain ⟨rfl, -⟩ : row = r₂ ∧ key = k₂ := by simpa [hj'] using h₂
          exact absurd ht (hfirst j r₁ k₁ h₁)
        · rw [Function.update_of_ne hj'] at h₂
          exact hK.single j j' r₁ r₂ k₁ k₂ h₁ h₂ ht
  | went dead dropped owing ws log deletes rows =>
    subst owing
    have hs : ∀ r k, Stage.owing dead = .filed r k → g i = .filed r k := fun r k h => by cases h
    refine ⟨fun j r' k' hf => ?_, fun j j' r₁ r₂ k₁ k₂ h₁ h₂ =>
      hK.single j j' r₁ r₂ k₁ k₂ (before hs j r₁ k₁ h₁) (before hs j' r₂ k₂ h₂)⟩
    rcases hK.remembered j r' k' (before hs j r' k' hf) with ha | hw
    · obtain ⟨z, hz, ht⟩ := not_absent.1 ha
      by_cases hd : z ∈ dead
      · exact .inr ⟨i, by simpa using hHs.core.2.1, z, by simpa using hHs.core.2.2 z hd, ht⟩
      · exact .inl (not_absent.2 ⟨z, (rows z).2 ⟨hz, hd⟩, ht⟩)
    · exact .inr (hwiped hw)

/-- A move that is no operation. -/
theorem Once.still {g : ι → Stage} {s : Stage} (hK : Once g c) (hs : s = g i ∨ s = .idle)
    (hhist : l.hist = (c.threads i).loc.hist) (hdb : sv.db = c.shared.db) :
    Once (Function.update g i s) (c.put i ⟨p, l⟩ sv) := by
  have before : ∀ j r k, Function.update g i s j = .filed r k → g j = .filed r k := by
    intro j r k hf
    by_cases hji : j = i
    · subst hji
      rw [Function.update_self] at hf
      rcases hs with rfl | rfl
      · exact hf
      · cases hf
    · rwa [Function.update_of_ne hji] at hf
  refine ⟨fun j r k hf => ?_, fun j j' r₁ r₂ k₁ k₂ h₁ h₂ =>
    hK.single j j' r₁ r₂ k₁ k₂ (before j r₁ k₁ h₁) (before j' r₂ k₂ h₂)⟩
  refine (hK.remembered j r k (before j r k hf)).imp (fun ha => ?_) fun hw => hw.put ?_ ?_
  · rwa [Config.put_shared, hdb]
  · simp [committed, hhist]
  · simp [dropped, hhist]

omit [DecidableEq ι] in
/-- An upload that is ingested filed a row of its triple. -/
theorem Ingested.filed (h : Ingested c i) {s : Stage} (hH : Holds st (reqs i) i (c.threads i).loc c.shared s)
    (hF : (c.threads i).prog.Follows (protocol st (reqs i)) Replies s) :
    ∃ r k, s = .filed r k ∧ tripleOfRequest st (reqs i) = some (tripleOf r) := by
  have hfiled : ∃ r k, s = .filed r k := by
    rcases h with h | ⟨r, hr, hd⟩
    · exact hH.announced h
    · rw [Config.returned_iff.1 hr] at hF
      exact hF.2 r rfl hd
  obtain ⟨r, k, rfl⟩ := hfiled
  exact ⟨r, k, rfl, hH.core.2⟩

/-- In every run in which no upload is under way once a row of its triple was
wiped, at most one upload of a triple is ingested. -/
theorem ingested_once (st : AppState) (reqs : ι → Request) (hreqs : ∀ i, Touches (reqs i)) (sv₀ : Sv ι)
    (hstart : sv₀.Quiescent) (hempty : chunksT.rows sv₀.db = []) {c : Clients ι Row Env Io Outcome}
    (h : Run machine (NotAfterWipe st reqs) (Service.start st reqs sv₀) c) {i j : ι} {t : Triple}
    (hi : tripleOfRequest st (reqs i) = some t) (hj : tripleOfRequest st (reqs j) = some t) (hci : Ingested c i)
    (hcj : Ingested c j) : i = j := by
  obtain ⟨-, -, g, hK, hg⟩ := run_chunks (K := Once) hreqs hstart hempty
    ⟨(fun i r k h => by cases h), (fun i j r r' k k' h => by cases h)⟩
    (fun c g i o k hK _ => by
      rw [← Function.update_eq_self i g]
      exact hK.still (.inl rfl) rfl rfl)
    (fun c g i e o k r l sv t ho _ hH _ hK hguard _ hm hx hn hHt => hK.done ho hH hguard hm hx hn hHt)
    (fun c g i e a t hK _ _ _ hs _ => hK.still hs rfl rfl) h
  obtain ⟨r, k, hr, ht⟩ := hci.filed (hg i).1 (hg i).2
  obtain ⟨r', k', hr', ht'⟩ := hcj.filed (hg j).1 (hg j).2
  rw [hi] at ht
  rw [hj] at ht'
  exact hK.single i j r r' k k' hr hr' (Option.some.inj (ht.symm.trans ht'))

end

instance {n : Nat} (c : Clients (Fin n) Row Env Io Outcome) (t : Triple) : Decidable (Wiped c t) :=
  inferInstanceAs (Decidable (∃ _, _))

instance {n : Nat} (st : AppState) (reqs : Fin n → Request) (c : Clients (Fin n) Row Env Io Outcome) (i : Fin n) (e : Env) :
    Decidable (NotAfterWipe st reqs c i e) :=
  decidable_of_iff (∀ t ∈ tripleOfRequest st (reqs i), committed (c.threads i).loc = false → ¬Wiped c t) Iff.rfl

/-- An upload, its retry, and a wipe of the speaker's audio. -/
def sampleRetry : Fin 3 → Request
  | 2 => .wipeParticipantAudio "bot" Sample.sessionId Sample.speaker
  | _ => .upload "bot" (Sample.speakerChunk 'a' [1])

theorem ingested_once_sample : ∃ c : Clients (Fin 3) Row Env Io Outcome,
    Ingested c 0 ∧ (Ingested c 1 → (0 : Fin 3) = 1) ∧ (c.returned 2).isSome := by
  have hrun : ((Service.start Sample.state sampleRetry (Sample.server [.session Sample.session])).play machine
      (Sample.moves 0 [(0, 17), (1, 4), (2, 17)])).map (fun c => (announced (c.threads 0).loc, (c.returned 2).isSome)) =
      some (true, true) := by decide +kernel
  have hguard : (Service.start Sample.state sampleRetry (Sample.server [.session Sample.session])).Guarded machine
      (NotAfterWipe Sample.state sampleRetry) (Sample.moves 0 [(0, 17), (1, 4), (2, 17)]) := by decide +kernel
  have htriple : ∃ t, tripleOfRequest Sample.state (sampleRetry 0) = some t :=
    Option.isSome_iff_exists.1 (by decide +kernel)
  obtain ⟨t, ht⟩ := htriple
  obtain ⟨c, hc, hr⟩ := Option.map_eq_some_iff.1 hrun
  simp only [Prod.mk.injEq] at hr
  refine ⟨c, .inl hr.1, fun h => ?_, hr.2⟩
  exact ingested_once Sample.state sampleRetry (by
      intro i
      match i with
      | 0 => trivial
      | 1 => trivial
      | 2 => trivial) (Sample.server [.session Sample.session]) ⟨by decide, rfl, rfl⟩ rfl (Run.play hguard .nil hc) ht ht
    (.inl hr.1) h

/-- An upload, a wipe of the speaker's audio, and a retry of the upload. -/
def sampleWipe : Fin 3 → Request
  | 1 => .wipeParticipantAudio "bot" Sample.sessionId Sample.speaker
  | _ => .upload "bot" (Sample.speakerChunk 'a' [1])

/-- What an upload answered and announced. -/
def told {n : Nat} (c : Clients (Fin n) Row Env Io Outcome) (i : Fin n) : Option Bool × Bool :=
  ((uploadedOf (c.returned i)).map (·.deduplicated), announced (c.threads i).loc)

/-- One after another, with nothing failing: the chunk is ingested twice. -/
theorem retry_after_wipe : ∃ c : Clients (Fin 3) Row Env Io Outcome,
    Run machine Service.Sequential (Service.start Sample.state sampleWipe (Sample.server [.session Sample.session])) c ∧
    ∀ i : Fin 3, i = 0 ∨ i = 2 → announced (c.threads i).loc = true ∧
      ∃ r, c.returned i = some (.ok (.uploaded r)) ∧ r.deduplicated = false := by
  have hrun : ((Service.start Sample.state sampleWipe (Sample.server [.session Sample.session])).play machine
      (Sample.moves 0 [(0, 17), (1, 17), (2, 17)])).map (fun c => (told c 0, told c 2)) =
      some ((some false, true), (some false, true)) := by decide +kernel
  have hguard := Sample.sequential (c := Service.start Sample.state sampleWipe (Sample.server [.session Sample.session]))
    (n := 0) (l := [(0, 17), (1, 17), (2, 17)]) (by decide +kernel)
  obtain ⟨c, hc, hr⟩ := Option.map_eq_some_iff.1 hrun
  have answered : ∀ i, told c i = (some false, true) → announced (c.threads i).loc = true ∧
      ∃ r, c.returned i = some (.ok (.uploaded r)) ∧ r.deduplicated = false := by
    intro i h
    simp only [told, Prod.mk.injEq] at h
    obtain ⟨r, hr, hd⟩ := Option.map_eq_some_iff.1 h.1
    exact ⟨h.2, r, uploadedOf_eq hr, hd⟩
  simp only [Prod.mk.injEq] at hr
  refine ⟨c, Run.play hguard .nil hc, fun i hi => ?_⟩
  rcases hi with rfl | rfl
  · exact answered 0 hr.1
  · exact answered 2 hr.2

end DataApi.ChunkOnce
