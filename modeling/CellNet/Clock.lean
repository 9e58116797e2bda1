import CellNet.Worker

/-!
# The clock reading of a server

`_oldTime` is the last clock reading of the thread of a server. `CheckTime` takes one, and
`OnRun` takes one when there are no clients; nothing else does (`work_oldTime`).
-/

namespace CellNet

namespace ServerState

variable {s t : ServerState} {o : ℤ} {p : Ptr} {sys : SysCalls}

/-- If `x` returns, then it leaves the clock reading `o`. -/
def Leaves (o : ℤ) (x : Exec ServerState) : Prop :=
  Exec.Sat (fun _ => True) x fun t => t.srv.oldTime = o

/-- If `x` returns, then it leaves the clock reading `o`, with its value. -/
def LeavesWith {β : Type} (o : ℤ) (x : Exec (β × ServerState)) : Prop :=
  Exec.Sat (fun _ => True) x fun y => y.2.srv.oldTime = o

/-! ## One client -/

theorem call_oldTime {β : Type} (hs : s.srv.oldTime = o) (p : Ptr)
    (f : CELLClient → Exec (β × CELLClient)) : LeavesWith o (s.call p f) :=
  .bind_any fun _ => hs

theorem event_oldTime (hs : s.srv.oldTime = o) (e : NetEvent) : Leaves o (s.event e) :=
  .bind_any fun _ => hs

theorem deleteClient_oldTime (hs : s.srv.oldTime = o) (p : Ptr) : Leaves o (s.deleteClient p) := by
  refine .bind_any fun heap => ?_
  split
  · cases hd : s.srv.derived <;> simp [CELLServer.closed, hd, hs]
  · exact hs

theorem onClientLeave_oldTime (hs : s.srv.oldTime = o) (p : Ptr) :
    Leaves o (s.onClientLeave p) :=
  (event_oldTime hs _).bind fun t ht => deleteClient_oldTime (s := t.setChange) ht p

theorem sendDataReal_oldTime (hs : s.srv.oldTime = o) (p : Ptr) (r : SendResult) :
    LeavesWith o (s.sendDataReal p r) :=
  call_oldTime hs p _

theorem recvData_oldTime (hs : s.srv.oldTime = o) (p : Ptr) (r : RecvResult) :
    LeavesWith o (s.recvData p r) := by
  refine .bind_any fun c => ?_
  refine (call_oldTime hs p _).bind fun x hx => ?_
  exact (event_oldTime hx _).bind fun t ht => ht

theorem joinClient_oldTime (hs : s.srv.oldTime = o) (p : Ptr) : Leaves o (joinClient sys s p) := by
  refine .bind_any fun fd => ?_
  refine (call_oldTime (s := { s with srv := { s.srv with clients := s.srv.clients.set fd p } })
    hs p _).bind fun x hx => ?_
  refine (event_oldTime hx _).bind fun t ht => ?_
  unfold onClientJoin
  split
  · exact ht
  · exact .bind_any fun _ => ht

theorem checkClient_oldTime (hs : s.srv.oldTime = o) (dt : ℤ) (e : SOCKET × Ptr) :
    Leaves o (checkClient dt s e) := by
  refine (call_oldTime hs e.2 _).bind fun x hx => ?_
  dsimp only
  split
  · exact (onClientLeave_oldTime hx _).bind fun _ ht => ht
  · exact hx

theorem leave_oldTime (hs : s.srv.oldTime = o) (e : SOCKET × Ptr) :
    Leaves o (do
      let s ← s.onClientLeave e.2
      return s.erase e.1) :=
  (onClientLeave_oldTime hs _).bind fun _ ht => ht

theorem readClient_oldTime (hs : s.srv.oldTime = o) (fdRead : CELLFDSet) (e : SOCKET × Ptr) :
    Leaves o (readClient sys fdRead s e) := by
  refine .bind_any fun fd => ?_
  refine .bind_any fun b => ?_
  split
  · refine (recvData_oldTime hs _ _).bind fun x hx => ?_
    dsimp only
    split
    · exact leave_oldTime hx e
    · exact hx
  · exact hs

theorem writeClient_oldTime (hs : s.srv.oldTime = o) (fdWrite : CELLFDSet) (e : SOCKET × Ptr) :
    Leaves o (writeClient sys fdWrite s e) := by
  refine .bind_any fun c => ?_
  split
  · refine .bind_any fun b => ?_
    split
    · refine (sendDataReal_oldTime hs _ _).bind fun x hx => ?_
      dsimp only
      split
      · exact leave_oldTime hx e
      · exact hx
    · exact hs
  · exact hs

theorem rmClient_oldTime (hs : s.srv.oldTime = o) (p : Ptr) : Leaves o (s.rmClient p) := by
  refine .bind_any fun fd => ?_
  dsimp only
  split
  · exact onClientLeave_oldTime (s := s.erase _) hs p
  · exact onClientLeave_oldTime hs p

theorem onWritable_oldTime (hs : s.srv.oldTime = o) (ev : EpollEvent) (p : Ptr) :
    Leaves o (onWritable sys s ev p) := by
  unfold onWritable
  split
  · refine (sendDataReal_oldTime hs _ _).bind fun x hx => ?_
    dsimp only
    split
    · exact rmClient_oldTime hx p
    · exact hx
  · exact hs

theorem onEvent_oldTime (hs : s.srv.oldTime = o) (ev : EpollEvent) :
    Leaves o (onEvent sys s ev) := by
  unfold onEvent
  split
  · exact hs
  · split
    · refine (recvData_oldTime hs _ _).bind fun x hx => ?_
      dsimp only
      split
      · exact rmClient_oldTime hx _
      · exact onWritable_oldTime hx ev _
    · exact onWritable_oldTime hs ev _

/-! ## One section -/

/-- A loop whose passes leave the clock reading. -/
theorem foldlM_oldTime {α : Type} {f : ServerState → α → Exec ServerState}
    (hf : ∀ s a, s.srv.oldTime = o → Leaves o (f s a)) (as : List α) (hs : s.srv.oldTime = o) :
    Leaves o (as.foldlM f s) :=
  Exec.Sat.foldlM (f := f) (I := fun _ t => t.srv.oldTime = o) (fun a _ t ht => hf t a ht) as s hs

theorem handOver_oldTime (hs : s.srv.oldTime = o) : Leaves o (s.handOver sys) := by
  unfold handOver
  split
  · exact hs
  · exact (foldlM_oldTime (fun _ p hs => joinClient_oldTime hs p) _ hs).bind fun t ht => ht

/-- `CheckTime` takes a reading. -/
theorem checkTime_oldTime (s : ServerState) (now : ℤ) : Leaves now (s.checkTime now) :=
  foldlM_oldTime (fun _ e hs => checkClient_oldTime hs _ e) _ rfl

theorem readData_oldTime (hs : s.srv.oldTime = o) (fdRead : CELLFDSet) :
    Leaves o (s.readData sys fdRead) :=
  foldlM_oldTime (fun _ e hs => readClient_oldTime hs fdRead e) _ hs

theorem writeData_oldTime (hs : s.srv.oldTime = o) (fdWrite : CELLFDSet) :
    Leaves o (s.writeData sys fdWrite) :=
  foldlM_oldTime (fun _ e hs => writeClient_oldTime hs fdWrite e) _ hs

theorem selectNetEvents_oldTime (hs : s.srv.oldTime = o) (d : CELLSelectServer) :
    LeavesWith o (s.selectNetEvents sys d) := by
  have hread : Exec.Sat (fun _ => True) (s.readSet d) fun x => x.1.srv.oldTime = o := by
    unfold readSet
    split
    · dsimp only
      split
      · trivial
      · refine .bind_any fun fd => ?_
        exact .bind_any fun _ => hs
    · exact hs
  refine hread.bind fun x hx => ?_
  refine .bind_any fun y => ?_
  refine .bind_any fun z => ?_
  dsimp only
  split
  · exact hx
  · split
    · exact hx
    · have hx' : (x.1.setDerived (.select ⟨z.2.1, z.2.2, x.2.fdReadBak, x.2.maxSock⟩)).srv.oldTime
          = o := hx
      refine (readData_oldTime hx' _).bind fun t ht => ?_
      exact (writeData_oldTime ht _).bind fun u hu => hu

theorem epollNetEvents_oldTime (hs : s.srv.oldTime = o) (d : CELLEpollServer) :
    LeavesWith o (s.epollNetEvents sys d) := by
  refine .bind_any fun ep => ?_
  dsimp only
  split
  · exact hs
  · refine (foldlM_oldTime (s := s.setDerived (.epoll ⟨ep⟩)) (fun _ ev hs => onEvent_oldTime hs ev)
      _ hs).bind fun t ht => ?_
    exact ht

theorem doNetEvents_oldTime (hs : s.srv.oldTime = o) : LeavesWith o (s.doNetEvents sys) := by
  unfold doNetEvents
  split
  · exact selectNetEvents_oldTime hs _
  · exact epollNetEvents_oldTime hs _

theorem clearClients_oldTime (hs : s.srv.oldTime = o) : Leaves o s.clearClients := by
  refine (foldlM_oldTime (fun _ p hs => deleteClient_oldTime hs p) _ hs).bind fun t ht => ?_
  refine (foldlM_oldTime (s := { t with srv := { t.srv with clients := .empty } })
    (fun _ p hs => deleteClient_oldTime hs p) _ ht).bind fun u hu => hu

/-- A section leaves the reading, or takes one : in `CheckTime`, or where there are no
clients. -/
theorem work_oldTime {h : Handler} {n : ℕ} (ho : s.Owns [])
    (hwork : s.work h n sys = some (.ok t)) :
    (t.srv.oldTime = s.srv.oldTime ∧ s.srv.pc ≠ .checkTime) ∨
      (t.srv.oldTime = sys.now ∧ (s.srv.pc = .checkTime ∨ t.srv.clients.entries = [])) := by
  cases hpc : s.srv.pc <;> simp only [work, hpc, Option.some.injEq] at hwork
  case loop =>
    obtain rfl := Except.ok.inj hwork
    exact .inl ⟨rfl, by simp⟩
  case handOver =>
    obtain ⟨u, hu, rfl⟩ := Exec.map_eq_ok.mp hwork
    have hleaves : Leaves s.srv.oldTime (s.handOver sys) := handOver_oldTime rfl
    rw [hu] at hleaves
    exact .inl ⟨hleaves, by simp⟩
  case testEmpty =>
    split at hwork
    · rename_i hempty
      obtain rfl := Except.ok.inj (Option.some.inj hwork)
      exact .inr ⟨rfl, .inr (List.isEmpty_iff.mp hempty)⟩
    · obtain rfl := Except.ok.inj (Option.some.inj hwork)
      exact .inl ⟨rfl, by simp⟩
  case checkTime =>
    obtain ⟨u, hu, rfl⟩ := Exec.map_eq_ok.mp hwork
    have hleaves := checkTime_oldTime s sys.now
    rw [hu] at hleaves
    exact .inr ⟨hleaves, .inl rfl⟩
  case doNetEvents =>
    obtain ⟨⟨ok, u⟩, hu, ht⟩ := Fallible.bind_eq_ok.mp hwork
    have hleaves : LeavesWith s.srv.oldTime (s.doNetEvents sys) := doNetEvents_oldTime rfl
    rw [hu] at hleaves
    refine .inl ⟨?_, by simp⟩
    cases ok <;> exact Except.ok.inj ht ▸ hleaves
  case doMsg =>
    obtain ⟨x, hx, hmap⟩ := Option.map_eq_some_iff.mp hwork
    obtain ⟨u, rfl, rfl⟩ := Exec.map_eq_ok.mp hmap
    have hsrv := (doMsgFrom_toured (E := fun _ => True) trivial h n _ ho (fun _ he => he)
      ho.nodup_values hx).2
    refine .inl ⟨?_, by simp⟩
    rw [goto, hsrv]
  case clearClients =>
    obtain ⟨u, hu, ht⟩ := Fallible.bind_eq_ok.mp hwork
    obtain rfl := Except.ok.inj ht
    have hleaves := clearClients_oldTime (s := s) rfl
    rw [hu] at hleaves
    exact .inl ⟨hleaves, by simp⟩
  case ended => simp at hwork

end ServerState

end CellNet
