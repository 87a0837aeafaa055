import Drain.Lib.AssocList
import Drain.MiLine

/-! The requests of a processor between the sequencer and its cache. -/

namespace Drain.Mi

open Function List L1Cache AList

variable {α V : Type} {a : α}

namespace Role

def busy : Role V → Option Bool
  | asking store | waiting store => some store
  | _ => none

end Role

variable [DecidableEq α] {l n : L1Cache α V} {role : α → Role V} {r : Role V}

namespace L1Cache

def table (l : L1Cache α V) : Bool → AList fun _ : α => SequencerRequest α V
  | true => l.writeRequestTable
  | false => l.readRequestTable

def queuedLines (l : L1Cache α V) : List α := l.mandatoryQueue.map (·.lineAddress)

end L1Cache

/-- Every request that is queued or taken is outstanding, and there is at most one of them
for a line. -/
structure SequencerOk (l : L1Cache α V) (role : α → Role V) : Prop where
  count : l.outstandingCount =
    l.writeRequestTable.entries.length + l.readRequestTable.entries.length
  queue : ∀ r ∈ l.mandatoryQueue, ∃ k, r.type = requestType k ∧
    r.lineAddress ∈ l.table (k = .write)
  nodup : l.queuedLines.Nodup
  busy : ∀ a store, (role a).busy = some store → a ∈ l.table store ∧ a ∉ l.queuedLines
  reads : ∀ a r, l.readRequestTable.lookup a = some r → r.type = .LD ∨ r.type = .IFETCH
  writes : ∀ a r, l.writeRequestTable.lookup a = some r → r.type = .ST

structure L1Cache.SameSequencer (l n : L1Cache α V) : Prop where
  mandatoryQueue : n.mandatoryQueue = l.mandatoryQueue
  readRequestTable : n.readRequestTable = l.readRequestTable
  writeRequestTable : n.writeRequestTable = l.writeRequestTable
  outstandingCount : n.outstandingCount = l.outstandingCount

theorem SequencerOk.congr (h : SequencerOk l role) (hs : l.SameSequencer n) :
    SequencerOk n role := by
  have htable : n.table = l.table := by
    funext store
    cases store with
    | true => exact hs.writeRequestTable
    | false => exact hs.readRequestTable
  have hlines : n.queuedLines = l.queuedLines := congrArg (map _) hs.mandatoryQueue
  refine ⟨?_, ?_, ?_, ?_, ?_, ?_⟩
  · rw [hs.outstandingCount, hs.writeRequestTable, hs.readRequestTable]
    exact h.count
  · rw [hs.mandatoryQueue, htable]
    exact h.queue
  · rw [hlines]
    exact h.nodup
  · rw [htable, hlines]
    exact h.busy
  · rw [hs.readRequestTable]
    exact h.reads
  · rw [hs.writeRequestTable]
    exact h.writes

theorem SequencerOk.same (h : SequencerOk l role) (hs : l.SameSequencer n)
    (hr : ∀ store, r.busy = some store → (role a).busy = some store) :
    SequencerOk n (update role a r) := by
  have hn := h.congr hs
  refine ⟨hn.count, hn.queue, hn.nodup, fun b store hb => hn.busy b store ?_, hn.reads, hn.writes⟩
  by_cases hba : b = a
  · subst hba
    rw [update_self] at hb
    exact hr store hb
  · rwa [update_of_ne hba] at hb

section Take

variable {req : RubyRequest α} {rest : List (RubyRequest α)}

theorem SequencerOk.take {store : Bool} (h : SequencerOk l role)
    (hqueue : l.mandatoryQueue = req :: rest) (htable : req.lineAddress ∈ l.table store)
    (hr : r.busy = some store) (hn : n.mandatoryQueue = rest)
    (hreads : n.readRequestTable = l.readRequestTable)
    (hwrites : n.writeRequestTable = l.writeRequestTable)
    (hcount : n.outstandingCount = l.outstandingCount) :
    SequencerOk n (update role req.lineAddress r) := by
  have htables : n.table = l.table := by
    funext b
    cases b with
    | true => exact hwrites
    | false => exact hreads
  have hlines : l.queuedLines = req.lineAddress :: n.queuedLines := by
    unfold queuedLines
    rw [hqueue, hn]
    rfl
  have hnodup := h.nodup
  rw [hlines, nodup_cons] at hnodup
  refine ⟨?_, fun x hx => ?_, hnodup.2, fun b store' hb => ?_, ?_, ?_⟩
  · rw [hcount, hwrites, hreads]
    exact h.count
  · rw [htables]
    refine h.queue x ?_
    rw [hqueue]
    exact mem_cons_of_mem req (hn ▸ hx)
  · rw [htables]
    by_cases hba : b = req.lineAddress
    · subst hba
      rw [update_self, hr] at hb
      cases hb
      exact ⟨htable, hnodup.1⟩
    · rw [update_of_ne hba] at hb
      obtain ⟨hmem, hnot⟩ := h.busy b store' hb
      rw [hlines] at hnot
      exact ⟨hmem, fun hq => hnot (mem_cons_of_mem _ hq)⟩
  · rw [hreads]
    exact h.reads
  · rw [hwrites]
    exact h.writes

end Take

section Answer

def L1Cache.answered (l : L1Cache α V) (a : α) : Bool → L1Cache α V
  | true => { l with
      writeRequestTable := l.writeRequestTable.erase a
      outstandingCount := l.outstandingCount - 1 }
  | false => { l with
      readRequestTable := l.readRequestTable.erase a
      outstandingCount := l.outstandingCount - 1 }

theorem SequencerOk.readCallback_eq (h : SequencerOk l role) (hmem : a ∈ l.readRequestTable) :
    l.readCallback a = .ok (l.answered a false) := by
  have hlen := length_entries_erase hmem
  have hpos := length_entries_pos hmem
  have hcount := h.count
  obtain ⟨request, hreq⟩ := Option.isSome_iff_exists.mp (lookup_isSome.mpr hmem)
  unfold readCallback markRemoved
  rw [hreq]
  dsimp only
  rw [require, if_pos (by rw [hlen]; omega), ok_bind, require, if_pos (h.reads a request hreq)]
  rfl

theorem SequencerOk.writeCallback_eq (h : SequencerOk l role) (cfg : Config α V) (v : V)
    (hmem : a ∈ l.writeRequestTable) :
    ∃ request, l.writeCallback cfg a v =
      .ok (cfg.setData v request.pkt.data request.pkt.offset request.pkt.size, request,
        l.answered a true) := by
  have hlen := length_entries_erase hmem
  have hpos := length_entries_pos hmem
  have hcount := h.count
  obtain ⟨request, hreq⟩ := Option.isSome_iff_exists.mp (lookup_isSome.mpr hmem)
  refine ⟨request, ?_⟩
  unfold writeCallback markRemoved
  rw [hreq]
  dsimp only
  rw [require, if_pos (by rw [hlen]; omega), ok_bind, require,
    if_pos (.inl (h.writes a request hreq))]
  rfl

theorem SequencerOk.answer {store : Bool} (h : SequencerOk l role) (hmem : a ∈ l.table store)
    (hr : r.busy = none) (hs : (l.answered a store).readRequestTable = n.readRequestTable ∧
      (l.answered a store).writeRequestTable = n.writeRequestTable ∧
      (l.answered a store).outstandingCount = n.outstandingCount)
    (hqueue : n.mandatoryQueue <:+ l.mandatoryQueue) (ha : a ∉ n.queuedLines) :
    SequencerOk n (update role a r) := by
  obtain ⟨hreads, hwrites, hcount⟩ := hs
  have hlines : n.queuedLines.Sublist l.queuedLines := hqueue.sublist.map _
  have htable {b : α} {k : Bool} (hb : b ∈ l.table k) (hne : b ≠ a) : b ∈ n.table k := by
    cases k with
    | true =>
      change b ∈ n.writeRequestTable
      rw [← hwrites]
      cases store with
      | true => exact mem_erase.mpr ⟨hne, hb⟩
      | false => exact hb
    | false =>
      change b ∈ n.readRequestTable
      rw [← hreads]
      cases store with
      | true => exact hb
      | false => exact mem_erase.mpr ⟨hne, hb⟩
  have hlookup {β : Type} {t : AList fun _ : α => β} {b : α} {x : β}
      (hx : (t.erase a).lookup b = some x) : t.lookup b = some x := by
    by_cases hb : b = a
    · rw [hb, lookup_erase] at hx
      cases hx
    · rwa [lookup_erase_ne hb] at hx
  refine ⟨?_, fun x hx => ?_, h.nodup.sublist hlines, fun b k hb => ?_, fun b x hx => ?_,
    fun b x hx => ?_⟩
  · rw [← hreads, ← hwrites, ← hcount]
    have hlen := length_entries_erase hmem
    have hpos := length_entries_pos hmem
    have hold := h.count
    cases store with
    | true =>
      change l.outstandingCount - 1 = (l.writeRequestTable.erase a).entries.length + _
      change (l.writeRequestTable.erase a).entries.length = l.writeRequestTable.entries.length - 1
        at hlen
      change 0 < l.writeRequestTable.entries.length at hpos
      change _ = _ + l.readRequestTable.entries.length
      omega
    | false =>
      change l.outstandingCount - 1 = _ + (l.readRequestTable.erase a).entries.length
      change (l.readRequestTable.erase a).entries.length = l.readRequestTable.entries.length - 1
        at hlen
      change 0 < l.readRequestTable.entries.length at hpos
      change _ = l.writeRequestTable.entries.length + _
      omega
  · obtain ⟨k, htype, hk⟩ := h.queue x (hqueue.subset hx)
    refine ⟨k, htype, htable hk ?_⟩
    exact ne_of_mem_of_not_mem (mem_map_of_mem hx) ha
  · have hne : b ≠ a := by
      rintro rfl
      rw [update_self, hr] at hb
      cases hb
    rw [update_of_ne hne] at hb
    obtain ⟨hk, hnot⟩ := h.busy b k hb
    exact ⟨htable hk hne, fun hq => hnot (hlines.subset hq)⟩
  · rw [← hreads] at hx
    cases store with
    | true => exact h.reads b x hx
    | false => exact h.reads b x (hlookup hx)
  · rw [← hwrites] at hx
    cases store with
    | true => exact h.writes b x (hlookup hx)
    | false => exact h.writes b x hx

end Answer

section Insert

variable {pkt : Packet α V}

namespace L1Cache

def inserted (l : L1Cache α V) (pkt : Packet α V) : L1Cache α V :=
  match pkt.kind with
  | .write => { l with
      writeRequestTable := l.writeRequestTable.insert pkt.lineAddress ⟨pkt, .ST⟩
      outstandingCount := l.outstandingCount + 1 }
  | .read => { l with
      readRequestTable := l.readRequestTable.insert pkt.lineAddress ⟨pkt, .LD⟩
      outstandingCount := l.outstandingCount + 1 }
  | .instFetch => { l with
      readRequestTable := l.readRequestTable.insert pkt.lineAddress ⟨pkt, .IFETCH⟩
      outstandingCount := l.outstandingCount + 1 }

theorem mem_table_inserted {store : Bool} :
    a ∈ (l.inserted pkt).table store ↔
      a ∈ l.table store ∨ a = pkt.lineAddress ∧ store = (pkt.kind = .write) := by
  unfold inserted
  cases pkt.kind <;> cases store <;> simp [table, or_comm]

theorem inserted_mandatoryQueue : (l.inserted pkt).mandatoryQueue = l.mandatoryQueue := by
  unfold inserted
  cases pkt.kind <;> rfl

theorem inserted_cache : (l.inserted pkt).tbes = l.tbes ∧
    (l.inserted pkt).cacheMemory = l.cacheMemory := by
  unfold inserted
  cases pkt.kind <;> exact ⟨rfl, rfl⟩

theorem inserted_count (hcount : l.outstandingCount =
      l.writeRequestTable.entries.length + l.readRequestTable.entries.length)
    (hnew : ∀ store, pkt.lineAddress ∉ l.table store) :
    (l.inserted pkt).outstandingCount = (l.inserted pkt).writeRequestTable.entries.length +
      (l.inserted pkt).readRequestTable.entries.length := by
  have hread : pkt.lineAddress ∉ l.readRequestTable := hnew false
  have hwrite : pkt.lineAddress ∉ l.writeRequestTable := hnew true
  unfold inserted
  cases pkt.kind with
  | write =>
    dsimp only
    rw [entries_insert_of_notMem hwrite, length_cons]
    omega
  | read | instFetch =>
    dsimp only
    rw [entries_insert_of_notMem hread, length_cons]
    omega

theorem lookup_insert_or {β : Type} {t : AList fun _ : α => β} {b : α} {x y : β}
    (h : (t.insert a x).lookup b = some y) : y = x ∨ t.lookup b = some y := by
  by_cases hb : b = a
  · subst hb
    rw [lookup_insert] at h
    exact .inl (Option.some.inj h).symm
  · rw [lookup_insert_ne hb] at h
    exact .inr h

theorem inserted_reads {x : SequencerRequest α V}
    (h : (l.inserted pkt).readRequestTable.lookup a = some x) :
    (x.type = .LD ∨ x.type = .IFETCH) ∨ l.readRequestTable.lookup a = some x := by
  unfold inserted at h
  cases hk : pkt.kind <;> rw [hk] at h
  · exact (lookup_insert_or h).imp_left fun hx => .inl (congrArg SequencerRequest.type hx)
  · exact (lookup_insert_or h).imp_left fun hx => .inr (congrArg SequencerRequest.type hx)
  · exact .inr h

theorem inserted_writes {x : SequencerRequest α V}
    (h : (l.inserted pkt).writeRequestTable.lookup a = some x) :
    x.type = .ST ∨ l.writeRequestTable.lookup a = some x := by
  unfold inserted at h
  cases hk : pkt.kind <;> rw [hk] at h
  · exact .inr h
  · exact .inr h
  · exact (lookup_insert_or h).imp_left (congrArg SequencerRequest.type ·)

theorem insertRequest_eq (hcount : l.outstandingCount =
      l.writeRequestTable.entries.length + l.readRequestTable.entries.length) :
    l.insertRequest pkt = .ok none ∨
      (∀ store, pkt.lineAddress ∉ l.table store) ∧
        l.insertRequest pkt = .ok (some (l.inserted pkt)) := by
  by_cases hread : pkt.lineAddress ∈ l.readRequestTable
  · left
    unfold insertRequest
    cases pkt.kind <;> simp [requestType, hread] <;> rfl
  by_cases hwrite : pkt.lineAddress ∈ l.writeRequestTable
  · left
    unfold insertRequest
    cases pkt.kind <;> simp [requestType, hread, hwrite] <;> rfl
  have hnew : ∀ store, pkt.lineAddress ∉ l.table store := by
    intro store
    cases store with
    | true => exact hwrite
    | false => exact hread
  refine .inr ⟨hnew, ?_⟩
  have hinserted := inserted_count hcount hnew
  unfold inserted at hinserted
  unfold insertRequest inserted
  cases hk : pkt.kind with
  | write =>
    rw [hk] at hinserted
    dsimp only [requestType]
    rw [if_pos (.inl rfl), if_neg hread, if_neg hwrite]
    exact bind_eq_ok.mpr ⟨⟨⟩, if_pos hinserted, rfl⟩
  | read | instFetch =>
    rw [hk] at hinserted
    dsimp only [requestType]
    rw [if_neg (by decide), if_neg hwrite, if_neg hread]
    exact bind_eq_ok.mpr ⟨⟨⟩, if_pos hinserted, rfl⟩

end L1Cache

theorem SequencerOk.insert (h : SequencerOk l role)
    (hnew : ∀ store, pkt.lineAddress ∉ l.table store) :
    SequencerOk { l.inserted pkt with
      mandatoryQueue := (l.inserted pkt).mandatoryQueue ++
        [{ lineAddress := pkt.lineAddress, type := requestType pkt.kind }] } role := by
  have hline : pkt.lineAddress ∉ l.queuedLines := by
    intro hmem
    obtain ⟨x, hx, hline⟩ := mem_map.mp hmem
    obtain ⟨k, -, hk⟩ := h.queue x hx
    exact hnew _ (hline ▸ hk)
  have hlines : ((l.inserted pkt).mandatoryQueue ++
      [RubyRequest.mk pkt.lineAddress (requestType pkt.kind)]).map
        RubyRequest.lineAddress = l.queuedLines ++ [pkt.lineAddress] := by
    rw [inserted_mandatoryQueue, map_append]
    rfl
  refine ⟨inserted_count h.count hnew, fun x hx => ?_, ?_, fun b store hb => ?_,
    fun b x hx => ?_, fun b x hx => ?_⟩
  · rw [inserted_mandatoryQueue, mem_append, mem_singleton] at hx
    obtain hx | rfl := hx
    · obtain ⟨k, htype, hk⟩ := h.queue x hx
      exact ⟨k, htype, mem_table_inserted.mpr (.inl hk)⟩
    · exact ⟨pkt.kind, rfl, mem_table_inserted.mpr (.inr ⟨rfl, by simp⟩)⟩
  · unfold queuedLines
    rw [hlines, nodup_append']
    exact ⟨h.nodup, nodup_singleton _, by simpa using hline⟩
  · obtain ⟨hmem, hnot⟩ := h.busy b store hb
    refine ⟨mem_table_inserted.mpr (.inl hmem), ?_⟩
    unfold queuedLines
    rw [hlines, mem_append, mem_singleton, not_or]
    exact ⟨hnot, ne_of_mem_of_not_mem hmem (hnew store)⟩
  · exact (inserted_reads hx).elim id (h.reads b x)
  · exact (inserted_writes hx).elim id (h.writes b x)

theorem SequencerOk.makeRequest {cfg : Config α V} (h : SequencerOk l role) :
    Holds (l.makeRequest cfg pkt)
      (fun n => n.tbes = l.tbes ∧ n.cacheMemory = l.cacheMemory ∧ SequencerOk n role)
      fun _ => False := by
  unfold L1Cache.makeRequest
  rw [holds_ite]
  refine ⟨fun _ => ⟨rfl, rfl, h⟩, fun _ => ?_⟩
  obtain hinsert | ⟨hnew, hinsert⟩ : l.insertRequest pkt = .ok none ∨ _ :=
    insertRequest_eq h.count
  · exact holds_bind_of_ok hinsert ⟨rfl, rfl, h⟩
  · exact holds_bind_of_ok hinsert
      ⟨inserted_cache.1, inserted_cache.2, h.insert hnew⟩

end Insert

end Drain.Mi
