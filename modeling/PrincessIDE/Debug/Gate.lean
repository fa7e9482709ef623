import PrincessIDE.Debug.Poison

namespace PrincessIDE.Dap
open Utf8 Str Error Effect Event

-- The operations of the `DebugBackend` trait; the others are the backend's own.
-- The trait's `id` and `capabilities` read the backend and do nothing.
def Op.interface : Op → Bool
  | .readPhysicalMemory .. | .capabilitiesLayer _ | .setHardwareBreakpoint _ | .prepareTarget => false
  | _ => true

-- What was written to an adapter since then is no more than the farewell.
def Parted (old : List Request) (t : Transport) : Prop :=
  ∃ more, t.written = old ++ more ∧ ∀ request ∈ more, request.command = "disconnect".toList

-- The adapter that was written `old` is one the session has given up, or one it
-- holds and is not ready to use.
def Spared (old : List Request) (w : World) : Prop :=
  (∃ t ∈ w.dropped, Parted old t) ∨ (w.backend.state ≠ .ready ∧ ∃ t, w.backend.transport = some t ∧ Parted old t)

theorem parted_congr {t u : Transport} (written : u.written = t.written) (parted : Parted old t) : Parted old u := by
  obtain ⟨more,since,only⟩ := parted
  exact ⟨more,written.trans since,only⟩

theorem poison_written (t : Transport) : t.poison.written = t.written := by
  unfold Transport.poison
  split <;> rfl

theorem spared_lasting (old : List Request) : Lasting False (Spared old) where
  neutral transport state dropped spared :=
    spared.imp (fun gone => dropped ▸ gone) (fun held => ⟨state ▸ held.1,transport ▸ held.2⟩)
  talked := by
    rintro w t s holds usable grown (gone | ⟨unready,u,here,parted⟩)
    · exact .inl gone
    · cases holds.symm.trans here
      have closed := (usable.resolve_left id).resolve_left unready
      exact .inr ⟨unready,_,rfl,parted_congr (grown.closed closed).2 parted⟩
  poisoned := by
    rintro w (gone | ⟨-,t,here,parted⟩)
    · exact .inl gone
    · refine .inr ⟨by rintro ⟨⟩,t.poison,?_,parted_congr (poison_written t) parted⟩
      exact congrArg (Option.map Transport.poison) here
  attaching := by
    rintro w unready (gone | ⟨-,held⟩)
    · exact .inl gone
    · exact .inr ⟨by rintro ⟨⟩,held⟩
  reached := by
    rintro w tick (gone | ⟨unready,t,here,parted⟩)
    · exact .inl gone
    · exact .inr ⟨unready,_,congrArg (Option.map _) here,parted_congr (reach_idle tick t).1.written parted⟩
  discarded := by
    rintro w t fresh (⟨u,member,parted⟩ | held)
    · exact .inl ⟨u,List.mem_cons_of_mem _ member,parted⟩
    · exact .inr held
  adopted := by
    rintro w t fresh (⟨u,member,parted⟩ | ⟨-,u,here,parted⟩)
    · exact .inl ⟨u,List.mem_append_right _ member,parted⟩
    · exact .inl ⟨u,List.mem_append_left _ (Option.mem_toList.mpr here),parted⟩
  parted := by
    rintro w t s holds grown only (⟨u,member,parted⟩ | ⟨-,u,here,more,since,farewell⟩)
    · exact .inl ⟨u,List.mem_append_right _ member,parted⟩
    · cases holds.symm.trans here
      obtain ⟨later,longer⟩ := grown.written
      refine .inl ⟨s.transport,List.mem_append_left _ (by simp [World.back]),more ++ later,?_,fun request member => ?_⟩
      · rw [← longer]
        dsimp only
        rw [since,List.append_assoc]
      · rcases List.mem_append.mp member with early | late
        · exact farewell request early
        · exact only request (by simpa [← longer] using late)
  detached := by
    rintro w none' (gone | ⟨-,t,here,-⟩)
    · exact .inl gone
    · cases none'.symm.trans here

theorem spared_transport (spared : Spared old w) : ∃ t ∈ w.transports, Parted old t := by
  rcases spared with ⟨t,member,parted⟩ | ⟨-,t,here,parted⟩
  · exact ⟨t,List.mem_append_right _ member,parted⟩
  · exact ⟨t,List.mem_append_left _ (Option.mem_toList.mpr here),parted⟩

-- In a session that is not ready, whatever brought it there, every operation of
-- the interface that is not to replace or give up the adapter is refused and
-- changes nothing; and the adapter the session holds is sent no request by any
-- operation of the interface but the farewell.
theorem unready_session (kit : Kit) (sink : Sink) (w : World) (op : Op) (unready : w.backend.state ≠ .ready) (interface : op.interface = true) :
    (op.connects = false → ∃ e, (op.perform kit sink).run w = .error e w) ∧
    ∀ t, w.backend.transport = some t → ∃ t' ∈ (after (op.perform kit sink) w).transports, ∃ more,
      t'.written = t.written ++ more ∧ ∀ request ∈ more, request.command = "disconnect".toList := by
  have asks : op.bypasses = false := by cases op <;> first | rfl | cases interface
  refine ⟨fun stays => perform_unready kit sink op asks stays unready,fun t holds => ?_⟩
  have now : Spared t.written w := .inr ⟨unready,t,holds,[],by simp,by simp⟩
  cases stays : op.connects with
  | false => exact (perform_unready kit sink op asks stays unready).after.symm ▸ spared_transport now
  | true =>
    refine spared_transport ?_
    cases op with
    | attach stub => exact (attach_carries (spared_lasting t.written) stub w).2 now
    | detach => exact (detach_carries (spared_lasting t.written) w).2 now
    | _ => cases stays

-- A poisoned session refuses the scopes, and no more than the farewell reaches
-- the adapter when it is detached.
theorem unready_session_late : (∃ e, ((Op.scopes 0).perform plainKit openSink).run lateTrace = .error e lateTrace) ∧
    ∀ t, lateTrace.backend.transport = some t → ∃ t' ∈ (after (Op.detach.perform plainKit openSink) lateTrace).transports, ∃ more,
      t'.written = t.written ++ more ∧ ∀ request ∈ more, request.command = "disconnect".toList := by
  have unready : lateTrace.backend.state ≠ .ready := by decide +kernel
  exact ⟨(unready_session plainKit openSink lateTrace (.scopes 0) unready rfl).1 rfl,
    (unready_session plainKit openSink lateTrace .detach unready rfl).2⟩

-- Detaching a poisoned session sends a request and is not refused; and attaching a
-- session that was never attached sends three.
theorem unready_session_talks : ¬ (∀ (op : Op) (w : World), op.interface = true → w.backend.state ≠ .ready →
      Refuses (op.perform plainKit openSink) w) ∧
    lateTrace.backend.state = .poisoned ∧
    ((after (Op.detach.perform plainKit openSink) lateTrace).dropped.map fun t => (t.written.drop 4).map (·.command)) = [["disconnect".toList]] ∧
    ((after ((Op.attach localStub).perform plainKit openSink) (attached [])).backend.transport.map fun t => t.written.map (·.command)) =
      some ["initialize".toList,"attach".toList,"configurationDone".toList] := by
  have poisoned : lateTrace.backend.state = .poisoned := by decide +kernel
  refine ⟨fun refused => ?_,poisoned,by decide +kernel,by decide +kernel⟩
  have same := (refused .detach lateTrace rfl (by rw [poisoned]; rintro ⟨⟩)).after
  have left : (after (Op.detach.perform plainKit openSink) lateTrace).backend.state = .detached := by decide +kernel
  rw [same,poisoned] at left
  cases left

end PrincessIDE.Dap
