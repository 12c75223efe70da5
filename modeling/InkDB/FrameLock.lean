import InkDB.PageFrame
import InkDB.Routing
import InkDB.RwLock

/-!
A page frame shared by threads. Guards come from the frame's lock, so a reader
never meets half of an access, whatever a panic has left of it; and on an index
page every search under a read guard is routed by the pairs that the finished
accesses have left.
-/

set_option autoImplicit false

namespace InkDB

/-- What a thread does under a write guard: a call on the index page over
`slotted_mut`, or the closure of `PageFrame::write` on the raw page. -/
inductive FrameOp where
  | index (op : IndexOp)
  | raw (f : RawPage → Exec RawPage)

abbrev FrameAnswer := Except PageFrameError (Except IndexPageError Unit)

def PageFrame.call (b : Build) : FrameOp → PageFrame → Exec (FrameAnswer × PageFrame)
  | .index op, f =>
      match f.writeGuard.slottedMut with
      | .error e => .ok (.error e,f)
      | .ok page => (op.exec.run b page).map (fun r => (.ok r.1,{ f with latch := r.2 }))
  | .raw g, f => (g f.latch).map (fun page => (.ok (.ok ()),{ f with latch := page }))

/-- What a call on the page leaves when it panics: anything, as `wreck` has it.
But the cell is built before the page is handed over. -/
def IndexOp.left (wreck : IndexOp → RawPage → RawPage) (op : IndexOp) (page : RawPage) : RawPage :=
  match op with
  | .append key child | .insertAt _ key child =>
      match IndexCellOwned.new key child with
      | .error _ => page
      | .ok _ => wreck op page
  | _ => wreck op page

def PageFrame.left (wreck : FrameOp → RawPage → RawPage) : FrameOp → PageFrame → PageFrame
  | .index op, f =>
      match f.writeGuard.slottedMut with
      | .error _ => f
      | .ok page => { f with latch := op.left (fun op => wreck (.index op)) page }
  | .raw g, f => { f with latch := wreck (.raw g) f.latch }

abbrev FrameSystem (Tid : Type) := Threads Tid (RwLoc FrameOp FrameAnswer) (RwLock PageFrame)

abbrev FrameTrace (Tid : Type) := List (Tid × RwEvent PageFrame FrameOp FrameAnswer)

section System
variable {Tid : Type} [DecidableEq Tid]

def FrameSystem.new (f : PageFrame) : FrameSystem Tid := RwLock.system f

def FrameSystem.run (b : Build) (wreck : FrameOp → RawPage → RawPage)
    (schedule : List (Tid × RwAction FrameOp)) (s : FrameSystem Tid) :
    Option (FrameTrace Tid × FrameSystem Tid) :=
  runSteps (Threads.step (rwMove (PageFrame.call b) (PageFrame.left wreck))) schedule s

end System

theorem call_kind {b : Build} {op : FrameOp} {f f' : PageFrame} {r : FrameAnswer}
    (h : PageFrame.call b op f = .ok (r,f')) : f'.kind = f.kind := by
  cases op with
  | raw g =>
    simp only [PageFrame.call] at h
    cases hg : g f.latch with
    | error x =>
      rw [hg] at h
      cases h
    | ok page =>
      rw [hg] at h
      cases h
      rfl
  | index op =>
    simp only [PageFrame.call] at h
    split at h
    · cases h
      rfl
    · rename_i page _
      cases hrun : op.exec.run b page with
      | error x =>
        rw [hrun] at h
        cases h
      | ok r =>
        rw [hrun] at h
        cases h
        rfl

theorem did_kind {b : Build} {calls : List (FrameOp × FrameAnswer)} {f f' : PageFrame}
    (h : Did (PageFrame.call b) f calls f') : f'.kind = f.kind := by
  induction calls generalizing f with
  | nil =>
    cases h
    rfl
  | cons c calls ih =>
    obtain ⟨f₁,hcall,hrest⟩ := h.cons
    exact (ih hrest).trans (call_kind hcall)

/-- Whatever the threads do, a reader sees the frame as the finished accesses
left it, their calls made one after another. -/
theorem frame_reads_are_serial {Tid : Type} [DecidableEq Tid] (b : Build)
    (wreck : FrameOp → RawPage → RawPage) (f : PageFrame)
    (schedule : List (Tid × RwAction FrameOp)) (tr : FrameTrace Tid) (s : FrameSystem Tid)
    (h : (FrameSystem.new f : FrameSystem Tid).run b wreck schedule = some (tr,s)) :
    ∀ pre t f' post, tr = pre ++ (t,.observed f') :: post →
      Did (PageFrame.call b) f (committedCalls pre) f' ∧
        f'.readGuard.slottedRef = slottedView f.kind f'.latch := by
  rintro pre t f' post rfl
  have hdid := rw_observed h
  refine ⟨hdid,?_⟩
  show slottedView f'.kind f'.latch = _
  rw [did_kind hdid]

def searchSchedule : List (Bool × RwAction FrameOp) :=
  [(false,.read),(false,.observe),(false,.drop),(true,.write),
    (true,.apply (.index (.append [5] ⟨7⟩))),(true,.drop),(false,.read),(false,.observe)]

def searchTrace (f f' : PageFrame) : FrameTrace Bool :=
  [(false,.acquired),(false,.observed f),(false,.released),(true,.acquired),
    (true,.applied (.index (.append [5] ⟨7⟩)) (.ok (.ok ()))),
    (true,.committed [(.index (.append [5] ⟨7⟩),.ok (.ok ()))]),(false,.acquired)] ++
    (false,.observed f') :: []

theorem searchSchedule_run {b : Build} (wreck : FrameOp → RawPage → RawPage)
    {f f' : PageFrame} (h : PageFrame.call b (.index (.append [5] ⟨7⟩)) f = .ok (.ok (.ok ()),f')) :
    ∃ s, (FrameSystem.new f : FrameSystem Bool).run b wreck searchSchedule =
      some (searchTrace f f',s) := by
  simp [FrameSystem.run,FrameSystem.new,searchSchedule,runSteps,Threads.step,rwMove,
    RwLock.system,h,searchTrace]

def zeroed (_ : FrameOp) (_ : RawPage) : RawPage := Buf.fill 4096 0

def searchedFrame : PageFrame := .new 10 .indexInternal (initialPage 1)

theorem searchedFrame_call (b : Build) : ∃ f',
    PageFrame.call b (.index (.append [5] ⟨7⟩)) searchedFrame = .ok (.ok (.ok ()),f') := by
  obtain ⟨p,hrun,-⟩ := (IndexOp.append [5] ⟨7⟩).simulates b (represents_fresh 1) (by decide)
  refine ⟨{ searchedFrame with latch := p },?_⟩
  have hview : searchedFrame.writeGuard.slottedMut = .ok (initialPage 1) :=
    slottedView_open rfl (initialPage 1)
  simp only [PageFrame.call,hview,hrun]
  rfl

theorem frame_reads_are_serial_search : ∃ f' s,
    (FrameSystem.new searchedFrame : FrameSystem Bool).run .debug zeroed searchSchedule =
      some (searchTrace searchedFrame f',s) ∧
    Did (PageFrame.call .debug) searchedFrame [] searchedFrame ∧
    Did (PageFrame.call .debug) searchedFrame [(.index (.append [5] ⟨7⟩),.ok (.ok ()))] f' := by
  obtain ⟨f',hcall⟩ := searchedFrame_call .debug
  obtain ⟨s,hrun⟩ := searchSchedule_run zeroed hcall
  have h := frame_reads_are_serial .debug zeroed searchedFrame searchSchedule _ s hrun
  refine ⟨f',s,hrun,?_,?_⟩
  · exact (h [(false,.acquired)] false searchedFrame _ rfl).1
  · exact (h _ false f' [] rfl).1

/-! Index pages -/

def indexOps (calls : List (FrameOp × FrameAnswer)) : List IndexOp :=
  calls.filterMap (fun c => match c.1 with | .index op => some op | .raw _ => none)

def FrameOp.Accepted : FrameOp → Prop
  | .index op => op.Accepted
  | .raw _ => False

section Index
variable {b : Build} {f : PageFrame} {m : IndexModel}

theorem call_simulates (hf : FrameRepresents f m) {op : FrameOp} (h : op.Accepted) :
    ∃ o f', op = .index o ∧ PageFrame.call b op f = .ok (.ok (o.step m).1,f') ∧
      FrameRepresents f' (o.step m).2 := by
  cases op with
  | raw g => exact h.elim
  | index o =>
    obtain ⟨p,hrun,hr⟩ := o.simulates b hf.2 h
    refine ⟨o,{ f with latch := p },rfl,?_,hf.1,hr⟩
    simp only [PageFrame.call,PageFrame.writeGuard,FrameWriteGuard.slottedMut,
      slottedView_open hf.1,hrun]
    rfl

theorem calls_safe (b : Build) :
    Safe (PageFrame.call b) FrameOp.Accepted (fun f => ∃ m, FrameRepresents f m) := by
  rintro op f hop ⟨m,hf⟩
  obtain ⟨o,f',-,hcall,hf'⟩ := call_simulates (b := b) hf hop
  exact ⟨_,f',hcall,_,hf'⟩

theorem did_represents {calls : List (FrameOp × FrameAnswer)} {f' : PageFrame}
    (hf : FrameRepresents f m) (hacc : ∀ c ∈ calls, c.1.Accepted)
    (h : Did (PageFrame.call b) f calls f') :
    FrameRepresents f' (Prog.trace IndexOp.step (indexOps calls) m).2 := by
  induction calls generalizing f m with
  | nil =>
    cases h
    exact hf
  | cons c calls ih =>
    obtain ⟨f₁,hcall,hrest⟩ := h.cons
    obtain ⟨o,f₂,ho,hcall',hf₂⟩ := call_simulates (b := b) hf (hacc c (by simp))
    rw [hcall] at hcall'
    obtain rfl : f₁ = f₂ := congrArg Prod.snd (Except.ok.inj hcall')
    have hnext := ih hf₂ (fun c' hc' => hacc c' (List.mem_cons_of_mem _ hc')) hrest
    have hops : indexOps (c :: calls) = o :: indexOps calls := by
      simp [indexOps,ho]
    rw [hops]
    exact hnext

end Index

/-- Threads that search an index page while others change it: no thread panics,
and a search is routed by the pairs and the sibling that the accesses finished
before it have left. -/
theorem frame_searches_route {Tid : Type} [DecidableEq Tid] (b : Build)
    (wreck : FrameOp → RawPage → RawPage) (f : PageFrame)
    (m : IndexModel) (hf : FrameRepresents f m) (schedule : List (Tid × RwAction FrameOp))
    (hacc : ∀ a ∈ schedule, ∀ op, a.2 = .apply op → op.Accepted) (tr : FrameTrace Tid)
    (s : FrameSystem Tid)
    (h : (FrameSystem.new f : FrameSystem Tid).run b wreck schedule = some (tr,s)) :
    (∀ x ∈ tr, ¬ x.2.Panics) ∧
      ∀ pre t f' post, tr = pre ++ (t,.observed f') :: post →
        ∃ page, f'.readGuard.slottedRef = .ok page ∧ ∀ b' key,
          IndexPageRef.findChildPtr b' page key =
            .ok (route (Prog.trace IndexOp.step (indexOps (committedCalls pre)) m).2.siblingId
              (Prog.trace IndexOp.step (indexOps (committedCalls pre)) m).2.pairs key) := by
  refine ⟨rw_safe (calls_safe b) ⟨m,hf⟩ hacc h,?_⟩
  rintro pre t f' post rfl
  have hcalls : ∀ c ∈ committedCalls pre, c.1.Accepted := by
    intro c hc
    apply rw_calls hacc h c
    rw [committedCalls,List.flatMap_append]
    exact List.mem_append_left _ hc
  have hf' := did_represents hf hcalls (rw_observed h)
  exact ⟨f'.latch,slottedView_open hf'.1 f'.latch,fun b' key => hf'.2.findChildPtr_eq b' key⟩

theorem frame_searches_route_search : FrameRepresents searchedFrame (.fresh 1) ∧
    (∀ a ∈ searchSchedule, ∀ op, a.2 = .apply op → op.Accepted) ∧ ∃ f' s,
      (FrameSystem.new searchedFrame : FrameSystem Bool).run .debug zeroed searchSchedule =
        some (searchTrace searchedFrame f',s) ∧
      (∀ x ∈ searchTrace searchedFrame f', ¬ x.2.Panics) ∧
      ∃ page, f'.readGuard.slottedRef = .ok page ∧
        IndexPageRef.findChildPtr .release page [3] = .ok (.ok (some ⟨7⟩)) := by
  have hf : FrameRepresents searchedFrame (.fresh 1) := ⟨rfl,represents_fresh 1⟩
  have hacc : ∀ a ∈ searchSchedule, ∀ op, a.2 = .apply op → op.Accepted := by
    intro a ha op hop
    simp only [searchSchedule,List.mem_cons,List.not_mem_nil,or_false] at ha
    rcases ha with rfl | rfl | rfl | rfl | rfl | rfl | rfl | rfl <;> cases hop
    show AcceptedKey [5]
    decide
  obtain ⟨f',hcall⟩ := searchedFrame_call .debug
  obtain ⟨s,hrun⟩ := searchSchedule_run zeroed hcall
  obtain ⟨hpanics,hroute⟩ := frame_searches_route .debug zeroed searchedFrame (.fresh 1) hf
    searchSchedule hacc _ s hrun
  obtain ⟨page,hview,hfind⟩ := hroute _ false f' [] rfl
  exact ⟨hf,hacc,f',s,hrun,hpanics,page,hview,hfind .release [3]⟩

/-! Panics under a guard -/

def FrameOp.OnIndex : FrameOp → Prop
  | .index _ => True
  | .raw _ => False

/-- A call went through exactly if `IndexCellOwned::new` takes its key. -/
def FrameEventLawful : RwEvent PageFrame FrameOp FrameAnswer → Prop
  | .applied op _ => op.Accepted
  | .faulted op => ¬ op.Accepted
  | _ => True

theorem exec_long_key (b : Build) (p : RawPage) {o : IndexOp} (h : ¬ o.Accepted) :
    o.exec.run b p = .error (.panic .assertion) := by
  cases o with
  | append key child | insertAt index key child =>
    have hnew : IndexCellOwned.new key child = .error (.panic .assertion) := dif_neg h
    rw [IndexOp.exec,Prog.call_bind_fault hnew]
  | initInPlace _ | setRightSibling _ | setLevel _ | setPageType _ => exact absurd trivial h

theorem applied_accepted {Tid : Type} {tr : FrameTrace Tid} (h : ∀ x ∈ tr, FrameEventLawful x.2) :
    ∀ c ∈ appliedCalls tr, c.1.Accepted := by
  intro c hc
  obtain ⟨⟨t,e⟩,hx,hc⟩ := List.mem_flatMap.mp hc
  have he := h _ hx
  cases e with
  | applied op answer =>
    rw [List.mem_singleton.mp hc]
    exact he
  | _ => simp at hc

section Panics
variable {b : Build} {f : PageFrame} {m : IndexModel}

theorem call_cases (hf : FrameRepresents f m) {op : FrameOp} (h : op.OnIndex) :
    (op.Accepted ∧ ∃ r f' m', PageFrame.call b op f = .ok (r,f') ∧ FrameRepresents f' m') ∨
      (¬ op.Accepted ∧ PageFrame.call b op f = .error (.panic .assertion)) := by
  cases op with
  | raw g => exact h.elim
  | index o =>
    by_cases hacc : o.Accepted
    · have hop : (FrameOp.index o).Accepted := hacc
      obtain ⟨o',f',-,hcall,hf'⟩ := call_simulates (b := b) hf hop
      exact .inl ⟨hacc,_,f',_,hcall,hf'⟩
    · refine .inr ⟨hacc,?_⟩
      simp only [PageFrame.call,PageFrame.writeGuard,FrameWriteGuard.slottedMut,
        slottedView_open hf.1,exec_long_key b f.latch hacc]
      rfl

theorem left_long_key (wreck : FrameOp → RawPage → RawPage) (hf : FrameRepresents f m)
    {op : FrameOp} (h : op.OnIndex) (hlong : ¬ op.Accepted) : PageFrame.left wreck op f = f := by
  cases op with
  | raw g => exact h.elim
  | index o =>
    have hcell : o.left (fun o => wreck (.index o)) f.latch = f.latch := by
      cases o with
      | append key child | insertAt index key child =>
        have hnew : IndexCellOwned.new key child = .error (.panic .assertion) := dif_neg hlong
        rw [IndexOp.left,hnew]
      | initInPlace _ | setRightSibling _ | setLevel _ | setPageType _ =>
        exact absurd trivial hlong
    simp only [PageFrame.left,PageFrame.writeGuard,FrameWriteGuard.slottedMut,
      slottedView_open hf.1,hcell]

theorem move_lawful {Tid : Type} {wreck : FrameOp → RawPage → RawPage} {a : RwAction FrameOp}
    {loc loc' : RwLoc FrameOp FrameAnswer} {l l' : RwLock PageFrame}
    {e : RwEvent PageFrame FrameOp FrameAnswer}
    (h : RwMove (PageFrame.call b) (PageFrame.left wreck) a loc l e loc' l') (t : Tid)
    (hop : ∀ op, a = .apply op → op.OnIndex) (hf : FrameRepresents l.value m) :
    Did (PageFrame.call b) l.value (appliedCalls [(t,e)]) l'.value ∧ FrameEventLawful e := by
  cases h with
  | @fault _ op _ x he =>
    rcases call_cases (b := b) hf (hop op rfl) with ⟨-,r,f',m',hcall,-⟩ | ⟨hlong,-⟩
    · rw [hcall] at he
      cases he
    · simp only [left_long_key wreck hf (hop op rfl) hlong]
      exact ⟨Did.nil _ _,hlong⟩
  | @apply _ op _ answer value he =>
    rcases call_cases (b := b) hf (hop op rfl) with ⟨hacc,-⟩ | ⟨-,hcall⟩
    · exact ⟨(Did.nil _ l.value).snoc he,hacc⟩
    · rw [hcall] at he
      cases he
  | read | write | refuse | observe | release | commit => exact ⟨Did.nil _ _,trivial⟩

end Panics

/-- On an index page a call panics exactly if its key is too long for a cell; the
page is left as the calls before it left it, and from then on the frame is shut. -/
theorem frame_panics_on_long_keys {Tid : Type} [DecidableEq Tid] (b : Build)
    (wreck : FrameOp → RawPage → RawPage) (f : PageFrame) (m : IndexModel)
    (hf : FrameRepresents f m) (schedule : List (Tid × RwAction FrameOp))
    (hindex : ∀ a ∈ schedule, ∀ op, a.2 = .apply op → op.OnIndex) (tr : FrameTrace Tid)
    (s : FrameSystem Tid)
    (h : (FrameSystem.new f : FrameSystem Tid).run b wreck schedule = some (tr,s)) :
    (∀ x ∈ tr, FrameEventLawful x.2) ∧
      (∀ pre t op post, tr = pre ++ (t,.faulted op) :: post → ∀ x ∈ post, x.2 = .refused) ∧
      Did (PageFrame.call b) f (appliedCalls tr) s.shared.value ∧
      FrameRepresents s.shared.value
        (Prog.trace IndexOp.step (indexOps (appliedCalls tr)) m).2 := by
  have hkeeps := runSteps_keeps (fun tr (s : FrameSystem Tid) =>
    (∀ x ∈ tr, FrameEventLawful x.2) ∧
      Did (PageFrame.call b) f (appliedCalls tr) s.shared.value) h
    ⟨by simp,Did.nil _ f⟩ ?_
  · refine ⟨hkeeps.1,?_,hkeeps.2,did_represents hf (applied_accepted hkeeps.1) hkeeps.2⟩
    rintro pre t op post rfl
    exact rw_poisoned h
  · rintro a ha tr s x s' ⟨htr,hdid⟩ hstep
    have hvalue := did_represents hf (applied_accepted htr) hdid
    obtain ⟨e,loc',l',hmove,rfl,rfl⟩ := Threads.step_some hstep
    obtain ⟨hnext,he⟩ := move_lawful (rwMove_cases hmove) a.1 (hindex a ha) hvalue
    refine ⟨fun y hy => ?_,?_⟩
    · rcases List.mem_append.mp hy with hy | hy
      · exact htr y hy
      · rw [List.mem_singleton.mp hy]
        exact he
    · have happend : appliedCalls (tr ++ [(a.1,e)]) = appliedCalls tr ++ appliedCalls [(a.1,e)] :=
        List.flatMap_append
      rw [happend]
      exact hdid.trans hnext

def longKey : Key := List.replicate 5000 0

theorem call_long_key (b : Build) {f : PageFrame} {m : IndexModel} (hf : FrameRepresents f m) :
    PageFrame.call b (.index (.append longKey ⟨7⟩)) f = .error (.panic .assertion) := by
  have hlong : ¬ AcceptedKey longKey := by
    have hlen : longKey.length = 5000 := List.length_replicate
    rw [AcceptedKey,hlen]
    decide
  have hop : (FrameOp.index (.append longKey ⟨7⟩)).OnIndex := trivial
  rcases call_cases (b := b) hf hop with ⟨hacc,-⟩ | ⟨-,hcall⟩
  · exact absurd hacc hlong
  · exact hcall

def longKeySchedule : List (Bool × RwAction FrameOp) :=
  [(true,.write),(true,.apply (.index (.append [5] ⟨7⟩))),
    (true,.apply (.index (.append longKey ⟨7⟩))),(false,.read)]

def longKeyTrace : FrameTrace Bool :=
  [(true,.acquired),(true,.applied (.index (.append [5] ⟨7⟩)) (.ok (.ok ()))),
    (true,.faulted (.index (.append longKey ⟨7⟩))),(false,.refused)]

theorem frame_panics_on_long_keys_refused : FrameRepresents searchedFrame (.fresh 1) ∧
    (∀ a ∈ longKeySchedule, ∀ op, a.2 = .apply op → op.OnIndex) ∧ ∃ s,
      (FrameSystem.new searchedFrame : FrameSystem Bool).run .release zeroed longKeySchedule =
        some (longKeyTrace,s) ∧
      FrameRepresents s.shared.value
        (Prog.trace IndexOp.step [.append [5] ⟨7⟩] (.fresh 1)).2 := by
  have hf : FrameRepresents searchedFrame (.fresh 1) := ⟨rfl,represents_fresh 1⟩
  have hindex : ∀ a ∈ longKeySchedule, ∀ op, a.2 = .apply op → op.OnIndex := by
    intro a ha op hop
    simp only [longKeySchedule,List.mem_cons,List.not_mem_nil,or_false] at ha
    rcases ha with rfl | rfl | rfl | rfl <;> cases hop <;> trivial
  have hshort : (FrameOp.index (.append [5] ⟨7⟩)).Accepted := by
    show AcceptedKey [5]
    decide
  obtain ⟨f',hcall⟩ := searchedFrame_call .release
  obtain ⟨o,f₁,-,hcall₁,hf₁⟩ := call_simulates (b := .release) hf hshort
  obtain rfl : f' = f₁ := congrArg Prod.snd (Except.ok.inj (hcall.symm.trans hcall₁))
  have hlong := call_long_key .release hf₁
  have hrun : ∃ s, (FrameSystem.new searchedFrame : FrameSystem Bool).run .release zeroed
      longKeySchedule = some (longKeyTrace,s) := by
    simp [FrameSystem.run,FrameSystem.new,longKeySchedule,longKeyTrace,runSteps,Threads.step,
      rwMove,RwLock.system,hcall,hlong]
  obtain ⟨s,hrun⟩ := hrun
  have h := frame_panics_on_long_keys .release zeroed searchedFrame (.fresh 1) hf longKeySchedule
    hindex _ s hrun
  exact ⟨hf,hindex,s,hrun,h.2.2.2⟩

end InkDB
