import Hsim.Traffic

/-! Steps on the way to memory and back.

The arbiter and the two memory modules hand transactions on. Requests and
responses stay in the traffic, commands keep their order on the lane; only the
falling edge of the PIM module takes a command off it. -/
namespace Hsim.System

section
variable {cfg : Config} {s : State} (hl : cfg.Linked) (h : Wired cfg s)

/-! ### The DRAM module's steps -/

include h in
/-- A process that moves traffic inside the DRAM module. -/
theorem refines_mem {mem : MemWrapper.State} {effects : List Effect}
    (hk : MemWrapper.Keeps cfg.mem s.mem mem effects) :
    Refines cfg s (performAll {s with mem := mem} effects) := by
  rw [performAll_silent _ hk.locals.silent]
  have htraffic : traffic {s with mem := mem} = traffic s := by
    simp only [traffic, hk.held]
  refine ⟨⟨h.host, h.arbiter, h.npu, h.launches, h.memPeq, hk.serves, h.pimPeq, h.pim, h.pimHeld, ?_⟩,
    .inl (view_eq rfl htraffic rfl rfl)⟩
  exact (congrArg Multiset.card htraffic).trans h.pending

include hl in
/-- A request stays out of the bridges in fast-layer mode. -/
theorem request_fits {t : Payload} (ht : cfg.npu.Request t) (hfast : cfg.pim.fastLayerMode = true) :
    t.staysLocal = true :=
  ht.fits (hl.npuFits hfast)

include hl h in
theorem memPeq_refines {t : Payload} {rest : List Payload} (hq : s.memPeq = t :: rest) :
    Refines cfg s (runMem (MemWrapper.peqCb s.now t) {s with memPeq := rest}) := by
  obtain ⟨ht, hrest⟩ := List.forall_mem_cons.mp (hq ▸ h.memPeq)
  obtain ⟨hserves, hheld, hlocal⟩ := MemWrapper.peqCb_held h.mem s.now ht.fromNpu
    fun hfast => request_fits hl ht (hl.mode ▸ hfast)
  rw [runMem, performAll_silent _ hlocal.silent]
  have htraffic : traffic {s with
      memPeq := rest
      mem := (MemWrapper.peqCb s.now t s.mem).1} = traffic s := traffic_memPeq hq hheld
  refine ⟨⟨h.host, h.arbiter, h.npu, h.launches, hrest, hserves, h.pimPeq, h.pim, h.pimHeld, ?_⟩,
    .inl (view_eq rfl htraffic rfl rfl)⟩
  exact (congrArg Multiset.card htraffic).trans h.pending

include h in
theorem memNegedge_refines : Refines cfg s (runMem MemWrapper.clockNegedge s) := by
  rcases MemWrapper.clockNegedge_held h.mem with hidle | ⟨t, heffects, hheld, hserves⟩
  · rw [runMem, hidle]
    exact refines_mem h ⟨h.mem, rfl, by simp [Local]⟩
  · have ht : t.srcId = .npu := by
      refine (h.mem.traffic t ?_).1
      rw [hheld]
      exact Multiset.mem_cons_self t _
    rw [runMem, heffects, performAll_eq]
    have htraffic : traffic {s with
        mem := (MemWrapper.clockNegedge s.mem).1
        arbiter := {s.arbiter with peqBw := s.arbiter.peqBw ++ [t]}} = traffic s :=
      traffic_memRespond hheld
    have hback : ∀ t' ∈ s.arbiter.peqBw ++ [t], t'.srcId = .npu :=
      List.forall_mem_append.mpr ⟨h.arbiter.peqBw, List.forall_mem_singleton.mpr ht⟩
    simp only [requestsOf, responsesOf, List.filterMap_cons, List.filterMap_nil, List.filter_nil,
      List.append_nil]
    refine ⟨⟨h.host, ⟨h.arbiter.peqFw, h.arbiter.fwQueue, hback, h.arbiter.bwQueue⟩, h.npu,
      h.launches, h.memPeq, hserves, h.pimPeq, h.pim, h.pimHeld, ?_⟩, .inl ?_⟩
    · exact (congrArg Multiset.card htraffic).trans h.pending
    · refine view_eq rfl htraffic rfl ?_
      simp [view]

/-! ### The PIM module's steps -/

include h in
/-- A process that moves transactions inside the PIM module. -/
theorem refines_pim {pim : PimWrapper.State} {effects : List Effect}
    (hk : PimWrapper.Keeps cfg.pim s.pim pim effects) :
    Refines cfg s (performAll {s with pim := pim} effects) := by
  rw [performAll_silent _ hk.locals.silent]
  have hlane : lane {s with pim := pim} = lane s := by
    simp only [lane, hk.lane]
  have htraffic : traffic {s with pim := pim} = traffic s := by
    simp only [traffic, hk.held]
  refine ⟨⟨h.host, h.arbiter, h.npu, h.launches, h.memPeq, h.mem, h.pimPeq, hk.direct,
    hk.held ▸ h.pimHeld, ?_⟩, .inl (view_eq hlane htraffic rfl rfl)⟩
  exact (congrArg Multiset.card htraffic).trans h.pending

include hl in
theorem outbound_fits {t : Payload} (ht : cfg.Outbound t) (hfast : cfg.pim.fastLayerMode = true) :
    t.staysLocal = true := by
  rcases ht with ht | ht
  · exact ht.fits hfast
  · exact request_fits hl ht hfast

/-- What is outbound and no command is the NPU's. -/
theorem Config.Outbound.request {t : Payload} (ht : cfg.Outbound t) (hpim : t.isPim = false) :
    cfg.npu.Request t := by
  rcases ht with ht | ht
  · rw [ht.isPim] at hpim
    exact absurd hpim (by simp)
  · exact ht

include hl h in
theorem pimPeq_refines {t : Payload} {rest : List Payload} (hq : s.pimPeq = t :: rest) :
    Refines cfg s (runPim (PimWrapper.peqCb s.now t) {s with pimPeq := rest}) := by
  obtain ⟨ht, hrest⟩ := List.forall_mem_cons.mp (hq ▸ h.pimPeq)
  obtain ⟨hdirect, hcompute, hheld, hlocal⟩ :=
    PimWrapper.peqCb_lane h.pim s.now fun hfast => outbound_fits hl ht hfast
  rw [runPim, performAll_silent _ hlocal.silent]
  have hlane : lane {s with
      pimPeq := rest
      pim := (PimWrapper.peqCb s.now t s.pim).1} = lane s := lane_pimPeq hq hcompute
  have htraffic : traffic {s with
      pimPeq := rest
      pim := (PimWrapper.peqCb s.now t s.pim).1} = traffic s := traffic_pimPeq hq hheld
  have hpimHeld : ∀ t' ∈ PimWrapper.memoryHeld (PimWrapper.peqCb s.now t s.pim).1, t'.FromNpu := by
    rw [hheld]
    intro t' ht'
    rcases Multiset.mem_add.mp ht' with ht' | ht'
    · exact h.pimHeld t' ht'
    · rw [Multiset.mem_coe, List.mem_filter, List.mem_singleton] at ht'
      obtain ⟨rfl, hpim⟩ := ht'
      exact (ht.request (by simpa using hpim)).fromNpu
  refine ⟨⟨h.host, h.arbiter, h.npu, h.launches, h.memPeq, h.mem, hrest, hdirect, hpimHeld, ?_⟩,
    .inl (view_eq hlane htraffic rfl rfl)⟩
  exact (congrArg Multiset.card htraffic).trans h.pending

include h in
theorem pimPosedge_refines : Refines cfg s (runPim (PimWrapper.clockPosedge cfg.pim s.now) s) := by
  obtain ⟨hcompute, hdirect, -⟩ := PimWrapper.clockPosedge_lane cfg.pim s.now s.pim
  rcases PimWrapper.clockPosedge_answers cfg.pim s.now (fun t ht => (h.pimHeld t ht).1) with
    hidle | ⟨t, heffects, hheld, -⟩
  · rw [runPim, hidle]
    exact refines_pim h ⟨h.pim, rfl, rfl, by simp [Local]⟩
  · have hfrom : ∀ t' ∈ t ::ₘ PimWrapper.memoryHeld (PimWrapper.clockPosedge cfg.pim s.now s.pim).1,
        t'.FromNpu := hheld ▸ h.pimHeld
    have hlane : lane {s with
        pim := (PimWrapper.clockPosedge cfg.pim s.now s.pim).1
        arbiter := {s.arbiter with peqBw := s.arbiter.peqBw ++ [t]}} = lane s := by
      simp only [lane, hcompute]
    have htraffic : traffic {s with
        pim := (PimWrapper.clockPosedge cfg.pim s.now s.pim).1
        arbiter := {s.arbiter with peqBw := s.arbiter.peqBw ++ [t]}} = traffic s :=
      traffic_pimRespond hheld
    have hback : ∀ t' ∈ s.arbiter.peqBw ++ [t], t'.srcId = .npu :=
      List.forall_mem_append.mpr ⟨h.arbiter.peqBw,
        List.forall_mem_singleton.mpr (hfrom t (Multiset.mem_cons_self t _)).1⟩
    rw [runPim, heffects, performAll_eq]
    simp only [requestsOf, responsesOf, List.filterMap_cons, List.filterMap_nil, List.filter_nil,
      List.append_nil]
    refine ⟨⟨h.host, ⟨h.arbiter.peqFw, h.arbiter.fwQueue, hback, h.arbiter.bwQueue⟩, h.npu,
      h.launches, h.memPeq, h.mem, h.pimPeq, hdirect h.pim,
      fun t' ht' => hfrom t' (Multiset.mem_cons_of_mem ht'), ?_⟩, .inl ?_⟩
    · exact (congrArg Multiset.card htraffic).trans h.pending
    · refine view_eq hlane htraffic rfl ?_
      simp [view]

include h in
/-- The falling edge serves the front of the lane. -/
theorem pimNegedge_refines : Refines cfg s (pimNegedge cfg s) := by
  obtain ⟨hcompute, hdirect, -⟩ := PimWrapper.clockNegedge_lane cfg.pim s.now s.pim
  rcases PimWrapper.clockNegedge_serves cfg.pim s.now s.pim with
    ⟨hq, -⟩ | ⟨t, rest, effects, hq, heffects, hlocal, -, hheld⟩
  · rw [pimNegedge_idle hq]
    exact refines_pim h ⟨h.pim, rfl, rfl, by simp [Local]⟩
  · have hsilent := hlocal.silent
    have hlane : lane s = t :: lane {s with
        pim := (PimWrapper.clockNegedge cfg.pim s.now s.pim).1} := by
      simp only [lane, hcompute, hq, List.take_succ_cons, List.take_zero, List.cons_append,
        List.nil_append]
    have htraffic : traffic {s with
        pim := (PimWrapper.clockNegedge cfg.pim s.now s.pim).1} = traffic s := by
      simp only [traffic, PimWrapper.memoryHeld_eq, hheld]
    have hs : pimNegedge cfg s = {s with
        pim := (PimWrapper.clockNegedge cfg.pim s.now s.pim).1
        served := s.served ++ [t]
        pimTraceDone := s.pimTraceDone || t.last
        activeDram := s.activeDram && decide (Effect.stopDram ∉
          effects ++ if t.last then [.pimTraceDone] else [])
        log := s.log ++ (effects ++ if t.last then [.pimTraceDone] else [])} := by
      have hrequests : requestsOf (effects ++ if t.last then [.pimTraceDone] else []) = [] := by
        rw [requestsOf_append, hsilent.requests]
        cases t.last <;> rfl
      have hresponses : responsesOf (effects ++ if t.last then [.pimTraceDone] else []) = [] := by
        rw [responsesOf_append, hsilent.responses]
        cases t.last <;> rfl
      rw [pimNegedge, runPim, heffects, performAll_eq, hq, hrequests, hresponses]
      cases t.last <;> simp [hsilent.pimTraceDone, hsilent.npuTraceDone]
    rw [hs]
    refine ⟨⟨h.host, h.arbiter, h.npu, h.launches, h.memPeq, h.mem, h.pimPeq, hdirect h.pim,
      fun t' ht' => h.pimHeld t' (Multiset.mem_of_le hheld.le ht'),
      (congrArg Multiset.card htraffic).trans h.pending⟩, .inr ?_⟩
    have hstep : Lib.Stages.Step marks cfg.Emits (view s) _ := .serve t _ hlane
    convert hstep using 1
    rw [view, view, ← htraffic]
    rfl

/-! ### The arbiter's steps -/

include h in
theorem arbiterPeqFw_refines {t : Payload} {rest : List Payload} (hq : s.arbiter.peqFw = t :: rest) :
    Refines cfg s {s with
      arbiter := Arbiter.peqFwCb cfg.dramEnabled t {s.arbiter with peqFw := rest}} := by
  obtain ⟨ht, hrest⟩ := List.forall_mem_cons.mp (hq ▸ h.arbiter.peqFw)
  have hfw : ∀ e ∈ s.arbiter.fwQueue ++ [(t, Arbiter.targetIndex cfg.dramEnabled t)],
      cfg.Outbound e.1 ∧ e.2 = Arbiter.targetIndex cfg.dramEnabled e.1 :=
    List.forall_mem_append.mpr ⟨h.arbiter.fwQueue, List.forall_mem_singleton.mpr ⟨ht, rfl⟩⟩
  have hlane : lane {s with
      arbiter := Arbiter.peqFwCb cfg.dramEnabled t {s.arbiter with peqFw := rest}} = lane s :=
    lane_arbiterPeqFw hq cfg.dramEnabled
  have htraffic : traffic {s with
      arbiter := Arbiter.peqFwCb cfg.dramEnabled t {s.arbiter with peqFw := rest}} = traffic s :=
    traffic_arbiterPeqFw hq cfg.dramEnabled
  refine ⟨⟨h.host, ⟨hrest, hfw, h.arbiter.peqBw, h.arbiter.bwQueue⟩, h.npu, h.launches, h.memPeq,
    h.mem, h.pimPeq, h.pim, h.pimHeld, ?_⟩, .inl (view_eq hlane htraffic rfl rfl)⟩
  exact (congrArg Multiset.card htraffic).trans h.pending

include hl in
/-- Commands reach the PIM module and requests the memory of the NPU. -/
theorem route {t : Payload} (ht : cfg.Outbound t) :
    cfg.targets[Arbiter.targetIndex cfg.dramEnabled t]? =
      some (if t.isPim then .pim else cfg.npu.memory) := by
  rcases ht with ht | ht
  · rw [ht.isPim]
    cases hd : cfg.dramEnabled <;>
      simp [Config.targets, Arbiter.targetIndex, hd, hl.pimEnabled, ht.dstId]
  · rw [ht.fromNpu.isPim]
    have hmemory := hl.memory
    have hdst := ht.dstId
    cases hd : cfg.dramEnabled <;>
      simp_all [Config.targets, Arbiter.targetIndex, hl.pimEnabled]

include h in
theorem Wired.forwarded {e : Payload × Nat} {rest : List (Payload × Nat)}
    (hq : s.arbiter.fwQueue = e :: rest) : ArbiterWired cfg {s.arbiter with fwQueue := rest} :=
  ⟨h.arbiter.peqFw, (List.forall_mem_cons.mp (hq ▸ h.arbiter.fwQueue)).2, h.arbiter.peqBw,
    h.arbiter.bwQueue⟩

include h in
/-- The front of the arbiter's queue is handed to the PIM module. -/
theorem forwardPim_refines {t : Payload} {index : Nat} {rest : List (Payload × Nat)}
    (hq : s.arbiter.fwQueue = (t, index) :: rest) (ht : cfg.Outbound t) :
    Refines cfg s {s with
      arbiter := {s.arbiter with fwQueue := rest}
      pimPeq := s.pimPeq ++ [t]} := by
  have hlane : lane {s with
      arbiter := {s.arbiter with fwQueue := rest}
      pimPeq := s.pimPeq ++ [t]} = lane s := lane_forwardPim hq
  have htraffic : traffic {s with
      arbiter := {s.arbiter with fwQueue := rest}
      pimPeq := s.pimPeq ++ [t]} = traffic s := traffic_forwardPim hq
  exact ⟨⟨h.host, h.forwarded hq, h.npu, h.launches, h.memPeq, h.mem,
    List.forall_mem_append.mpr ⟨h.pimPeq, List.forall_mem_singleton.mpr ht⟩, h.pim, h.pimHeld,
    (congrArg Multiset.card htraffic).trans h.pending⟩, .inl (view_eq hlane htraffic rfl rfl)⟩

include h in
/-- The front of the arbiter's queue is handed to the DRAM module. -/
theorem forwardMem_refines {t : Payload} {index : Nat} {rest : List (Payload × Nat)}
    (hq : s.arbiter.fwQueue = (t, index) :: rest) (ht : cfg.npu.Request t) :
    Refines cfg s {s with
      arbiter := {s.arbiter with fwQueue := rest}
      memPeq := s.memPeq ++ [t]} := by
  have hpim : t.isPim = false := ht.fromNpu.isPim
  have hlane : lane {s with
      arbiter := {s.arbiter with fwQueue := rest}
      memPeq := s.memPeq ++ [t]} = lane s := lane_forwardMem hq hpim
  have htraffic : traffic {s with
      arbiter := {s.arbiter with fwQueue := rest}
      memPeq := s.memPeq ++ [t]} = traffic s := traffic_forwardMem hq hpim
  exact ⟨⟨h.host, h.forwarded hq, h.npu, h.launches,
    List.forall_mem_append.mpr ⟨h.memPeq, List.forall_mem_singleton.mpr ht⟩, h.mem, h.pimPeq, h.pim,
    h.pimHeld, (congrArg Multiset.card htraffic).trans h.pending⟩,
    .inl (view_eq hlane htraffic rfl rfl)⟩

include hl h in
theorem arbiterNegedge_refines {t : Payload} {index : Nat} {rest : List (Payload × Nat)}
    (hq : s.arbiter.fwQueue = (t, index) :: rest) :
    Refines cfg s (deliverFw cfg t index {s with arbiter := {s.arbiter with fwQueue := rest}}) := by
  obtain ⟨⟨ht, hindex⟩, -⟩ := List.forall_mem_cons.mp (hq ▸ h.arbiter.fwQueue)
  dsimp only at ht hindex
  have hroute := route hl ht
  rw [← hindex] at hroute
  rw [deliverFw, hroute]
  cases hk : t.isPim with
  | true => exact forwardPim_refines h hq ht
  | false =>
    have hmemory := hl.memory
    cases hd : cfg.dramEnabled with
    | false =>
      rw [hd] at hmemory
      simp only [Bool.false_eq_true, if_false, hmemory]
      exact forwardPim_refines h hq ht
    | true =>
      rw [hd] at hmemory
      simp only [Bool.false_eq_true, if_false, if_true, hmemory]
      exact forwardMem_refines h hq (ht.request hk)

include h in
theorem arbiterPeqBw_refines {t : Payload} {rest : List Payload} (hq : s.arbiter.peqBw = t :: rest) :
    Refines cfg s {s with arbiter := Arbiter.peqBwCb t {s.arbiter with peqBw := rest}} := by
  obtain ⟨ht, hrest⟩ := List.forall_mem_cons.mp (hq ▸ h.arbiter.peqBw)
  rw [peqBwCb_npu ht]
  have hbw : ∀ e ∈ s.arbiter.bwQueue ++ [(t, 1)], e.2 = 1 :=
    List.forall_mem_append.mpr ⟨h.arbiter.bwQueue, List.forall_mem_singleton.mpr rfl⟩
  have htraffic : traffic {s with arbiter := {s.arbiter with
      peqBw := rest
      bwQueue := s.arbiter.bwQueue ++ [(t, 1)]}} = traffic s := traffic_arbiterPeqBw hq 1
  exact ⟨⟨h.host, ⟨h.arbiter.peqFw, h.arbiter.fwQueue, hrest, hbw⟩, h.npu, h.launches, h.memPeq,
    h.mem, h.pimPeq, h.pim, h.pimHeld, (congrArg Multiset.card htraffic).trans h.pending⟩,
    .inl (view_eq rfl htraffic rfl rfl)⟩

include h in
theorem arbiterPosedge_refines {t : Payload} {index : Nat} {rest : List (Payload × Nat)}
    (hq : s.arbiter.bwQueue = (t, index) :: rest) :
    Refines cfg s (deliverBw t index {s with arbiter := {s.arbiter with bwQueue := rest}}) := by
  obtain ⟨hindex, hrest⟩ := List.forall_mem_cons.mp (hq ▸ h.arbiter.bwQueue)
  dsimp only at hindex
  subst hindex
  have htraffic : traffic {s with
      arbiter := {s.arbiter with bwQueue := rest}
      npu := {s.npu with peqBw := s.npu.peqBw ++ [t]}} = traffic s := traffic_deliverBw hq
  exact ⟨⟨h.host, ⟨h.arbiter.peqFw, h.arbiter.fwQueue, h.arbiter.peqBw, hrest⟩,
    ⟨h.npu.settled, h.npu.room, h.npu.requests, h.npu.script⟩, h.launches, h.memPeq, h.mem, h.pimPeq,
    h.pim, h.pimHeld, (congrArg Multiset.card htraffic).trans h.pending⟩,
    .inl (view_eq rfl htraffic rfl rfl)⟩

end

end Hsim.System
