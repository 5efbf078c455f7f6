import TagWire.Proofs.Decoding.RecursionLimit
import TagWire.Proofs.Decoding.Repacking
import TagWire.Proofs.Encoding.RoundTrip
import TagWire.Proofs.Records.Completeness
import TagWire.Proofs.Records.ForeignMerging

/-!
What merging keeps. Records of one type form a monoid under it; a merge of records that can be
loaded can be loaded, and a merge of complete records is complete, also if it is made by decoding
their bytes in a row.
-/

namespace TagWire

namespace Record

variable {schema : Schema}

-----------------------------------------------------------------------------------------
-- Loading
-----------------------------------------------------------------------------------------

/-- The bytes of a record can be decoded under a limit of nesting. -/
def Loadable (schema : Schema) (limit : Nat) (record : Record) : Prop :=
  ∃ loaded, decode schema record.type.name record.bytes ⟨limit, false⟩ = .ok loaded

/-- A record can be loaded under a limit exactly if it is no deeper. Under a lower limit it would
come out as under a higher one, and that is too deep.
-/
theorem Conforms.loadable_iff {record : Record} (hc : record.Conforms schema)
    (built : schema.Built) (short : record.bytes.length < 2 ^ 63) {limit : Nat}
    : record.Loadable schema limit ↔ record.depth ≤ limit := by
  have hlen : record.bytes.length < 2 ^ 64 := Nat.lt_trans short (by decide)
  refine ⟨?_, fun hdepth => ⟨record, hc.decode_bytes built hdepth hlen⟩⟩
  rintro ⟨loaded, hd⟩
  rcases Nat.le_total record.depth limit with hle | hle
  · exact hle
  · rcases decode_upTo schema record.type.name record.bytes hle with heq | hstop
    · rw [hc.decode_bytes built (Nat.le_refl _) hlen] at heq
      obtain rfl := Except.ok.inj (hd.symm.trans heq)
      exact Nat.le_of_lt_succ (Reference.depth_lt_of_decodeWithin? (decode_eq_ok_iff.mp hd))
    · simp [hstop] at hd

-----------------------------------------------------------------------------------------
-- The laws of merging
-----------------------------------------------------------------------------------------

/-- Records of one type form a monoid under merging, which is never refused: to merge is
associative, and the empty record changes nothing on either side. A merge is as deep as the deeper
of the two records, and so it can be loaded under every limit under which both can.
-/
theorem merge_monoid (built : schema.Built) {first second third : Record}
    (h1 : first.Conforms schema) (h2 : second.Conforms schema) (h3 : third.Conforms schema)
    (same2 : first.type.name = second.type.name) (same3 : first.type.name = third.type.name)
    : (∃ lower upper whole,
        first.merge second = .ok lower
        ∧ second.merge third = .ok upper
        ∧ lower.merge third = .ok whole
        ∧ first.merge upper = .ok whole)
      ∧ (∃ nothing,
        make schema first.type.name = .ok nothing
        ∧ nothing.merge first = .ok first
        ∧ first.merge nothing = .ok first)
      ∧ ∃ merged,
        first.merge second = .ok merged
        ∧ merged.depth = max first.depth second.depth
        ∧ (first.bytes.length < 2 ^ 63
          → second.bytes.length < 2 ^ 63
          → merged.bytes.length < 2 ^ 63
          → ∀ limit,
              first.Loadable schema limit
              → second.Loadable schema limit
              → decode schema merged.type.name merged.bytes ⟨limit, false⟩ = .ok merged) := by
  have type2 := h1.type_eq h2 same2
  have type3 := h1.type_eq h3 same3
  refine ⟨?_, ?_, ?_⟩
  · refine ⟨_, _, (first.overlay second).overlay third, merge_eq_ok same2.symm,
      merge_eq_ok (same3.symm.trans same2), merge_eq_ok (by simpa using same3.symm), ?_⟩
    rw [overlay_assoc h1 h2 h3 type2 type3]
    exact merge_eq_ok (by simpa using same2.symm)
  · have ofNothing : (empty schema first.type).merge first
        = .ok ((empty schema first.type).overlay first) :=
      merge_eq_ok rfl
    have withNothing : first.merge (empty schema first.type)
        = .ok (first.overlay (empty schema first.type)) :=
      merge_eq_ok rfl
    rw [empty_overlay h1] at ofNothing
    rw [overlay_empty] at withNothing
    exact ⟨empty schema first.type, by rw [make, h1.here.typed], ofNothing, withNothing⟩
  · have hmerged := h1.overlay h2 type2
    have hdepth := h1.depth_overlay h2 type2
    refine ⟨_, merge_eq_ok same2.symm, hdepth, fun len1 len2 len limit load1 load2 => ?_⟩
    refine hmerged.decode_bytes built ?_ (Nat.lt_trans len (by decide))
    rw [hdepth]
    exact Nat.max_le.mpr ⟨(h1.loadable_iff built len1).mp load1,
      (h2.loadable_iff built len2).mp load2⟩

end Record

namespace AddressBook

/-- A household without sorts, and the neighbours next door. -/
def farther : Record :=
  ⟨street true, household true, [(2, .single (.message neighbours))], []⟩

theorem reachable_farther : farther.Reachable (street true) := by
  have made : Record.make (street true) (household true).name
      = .ok (.empty (street true) (household true)) :=
    rfl
  have given : ∀ other ∈ (Edit.set 2 (.message neighbours)).given,
      other.Reachable (street true) := by
    intro other ho
    obtain rfl := List.mem_singleton.mp ho
    exact reachable_neighbours
  exact .edited [] (.made made) given

/-- Households of three depths. A merge of the two deeper ones is as deep as the deepest, and is
loaded under its limit.
-/
theorem merge_monoid_households
    : (street true).Built
      ∧ neighbours.Conforms (street true)
      ∧ farther.Conforms (street true)
      ∧ nextDoor.Conforms (street true)
      ∧ (∃ lower upper whole,
        neighbours.merge farther = .ok lower
        ∧ farther.merge nextDoor = .ok upper
        ∧ lower.merge nextDoor = .ok whole
        ∧ neighbours.merge upper = .ok whole)
      ∧ ∃ merged,
        neighbours.merge farther = .ok merged
        ∧ merged.depth = 2
        ∧ Record.decode (street true) merged.type.name merged.bytes ⟨2, false⟩ = .ok merged := by
  have near := reachable_neighbours.conforms
  have far := reachable_farther.conforms
  have held : neighbours.slot? 2 = some (.single (.message nextDoor)) := rfl
  have next := near.inner (Record.holds_of_slot? held (List.mem_singleton_self _))
  obtain ⟨associative, _, merged, hm, hdepth, loads⟩ :=
    Record.merge_monoid (street_built true) near far next rfl rfl
  obtain rfl : neighbours.overlay farther = merged := Except.ok.inj hm
  have lenNear : neighbours.bytes.length < 2 ^ 63 := by decide +kernel
  have lenFar : farther.bytes.length < 2 ^ 63 := by decide +kernel
  have len : (neighbours.overlay farther).bytes.length < 2 ^ 63 := by decide +kernel
  have loadNear := (near.loadable_iff (street_built true) lenNear).mpr
    (by decide : neighbours.depth ≤ 2)
  have loadFar := (far.loadable_iff (street_built true) lenFar).mpr
    (by decide : farther.depth ≤ 2)
  exact ⟨street_built true, near, far, next, associative, _, hm, hdepth,
    loads lenNear lenFar len 2 loadNear loadFar⟩

end AddressBook

namespace Record

variable {schema : Schema}

-----------------------------------------------------------------------------------------
-- Complete records
-----------------------------------------------------------------------------------------

/-- What is set stays set in a merge. -/
theorem isSet_overlay_of_lower {mine theirs : Record} (ascending : TagMap.Ascending theirs.slots)
    {tag : Nat} (h : mine.isSet tag = true)
    : (mine.overlay theirs).isSet tag = true := by
  rw [isSet, slot?_overlay _ ascending]
  cases theirs.slot? tag with
  | none => exact h
  | some slot => rfl

/-- Nothing is missing in a merge of records in which nothing is, by induction over the upper one:
what the merge holds is held by one of the two, or is itself such a merge.
-/
theorem Conforms.missing_overlay (built : schema.Built) {mine theirs : Record}
    (hm : mine.Conforms schema) (ht : theirs.Conforms schema) (same : mine.type = theirs.type)
    (hmine : mine.missing = []) (htheirs : theirs.missing = [])
    : (mine.overlay theirs).missing = [] := by
  induction theirs using Record.nestedInduction generalizing mine with
  | step theirs ih =>
      obtain ⟨required, lower⟩ := (hm.missing_eq_nil_iff built).mp hmine
      have upper := ((ht.missing_eq_nil_iff built).mp htheirs).2
      refine ((hm.overlay ht same).missing_eq_nil_iff built).mpr
        ⟨fun field declared hr => ?_, fun nested holds => ?_⟩
      · rw [overlay_type] at declared
        exact isSet_overlay_of_lower ht.here.ascending (required field declared hr)
      · rcases holds_overlay hm.here.ascending ht.here.ascending holds with
          hn | hn | ⟨tag, base, top, hb, hu, rfl⟩
        · exact lower nested hn
        · exact upper nested hn
        · have hbase := holds_of_slot? hb (List.mem_singleton_self _)
          have htop := holds_of_slot? hu (List.mem_singleton_self _)
          exact ih top htop (hm.inner hbase) (ht.inner htop) (hm.type_eq_of_slots ht same hb hu)
            (lower base hbase) (upper top htop)

/-- A merge of complete records is complete. Their bytes, which are not refused, are decoded in a
row as that merge, required fields being asked for, if records may nest as deep as in each of them.
-/
theorem merge_complete (built : schema.Built) {mine theirs : Record} (hm : mine.Conforms schema)
    (ht : theirs.Conforms schema) (same : mine.type.name = theirs.type.name)
    (completeMine : mine.isComplete = true) (completeTheirs : theirs.isComplete = true)
    : ∃ merged front back,
        mine.merge theirs = .ok merged
        ∧ merged.isComplete = true
        ∧ mine.encode = .ok front
        ∧ theirs.encode = .ok back
        ∧ (front.length < 2 ^ 63
          → back.length < 2 ^ 63
          → ∀ limit,
              mine.depth ≤ limit
              → theirs.depth ≤ limit
              → decode schema mine.type.name (front ++ back) ⟨limit, true⟩ = .ok merged) := by
  have complete : (mine.overlay theirs).isComplete = true :=
    isComplete_iff.mpr (hm.missing_overlay built ht (hm.type_eq ht same)
      (isComplete_iff.mp completeMine) (isComplete_iff.mp completeTheirs))
  refine ⟨_, _, _, merge_eq_ok same.symm, complete, encode_complete completeMine,
    encode_complete completeTheirs, fun len1 len2 limit depth1 depth2 => ?_⟩
  have readMine := hm.decode_bytes built depth1 (Nat.lt_trans len1 (by decide))
  have readTheirs := ht.decode_bytes built depth2 (Nat.lt_trans len2 (by decide))
  rw [← same] at readTheirs
  exact decode_eq_ok_iff_unchecked.mpr
    ⟨(decode_append_eq_ok_iff readMine).mpr ⟨theirs, readTheirs, rfl⟩, fun _ => complete⟩

end Record

namespace AddressBook

/-- A person with one telephone. -/
def listed (name : String) (id : Int32) : Record :=
  ⟨schema, person,
    [(1, .single (.scalar (.string name))), (2, .single (.scalar (.int32 id))),
      (4, .repeated [.message numbered])],
    []⟩

theorem conforms_listed (name : String) (id : Int32) : (listed name id).Conforms schema := by
  have made : Record.make schema person.name = .ok (.empty schema person) := rfl
  let named : Record :=
    { Record.empty schema person with slots := [(1, .single (.scalar (.string name)))] }
  let known : Record := { named with slots := named.slots ++ [(2, .single (.scalar (.int32 id)))] }
  have naming : (Record.empty schema person).set 1 (.scalar (.string name)) = .ok named := rfl
  have counting : named.set 2 (.scalar (.int32 id)) = .ok known := rfl
  have calling : known.append 4 (.message numbered) = .ok (listed name id) := rfl
  have hnamed := (Record.set_keeps (Record.conforms_of_make made).1 (by simp) naming).1
  have hknown := (Record.set_keeps hnamed (by simp) counting).1
  refine (Record.append_keeps hknown ?_ calling).1
  rintro _ ⟨⟩
  exact conforms_numbered

/-- Two entries of one person. The later gives the name, and each gives a telephone. -/
theorem merge_complete_listed
    : (listed "A" 1).isComplete = true
      ∧ (listed "B" 2).isComplete = true
      ∧ ∃ merged,
        (listed "A" 1).merge (listed "B" 2) = .ok merged
        ∧ merged.isComplete = true
        ∧ merged.elements 4 = [.message numbered, .message numbered]
        ∧ Record.decode schema person.name ((listed "A" 1).bytes ++ (listed "B" 2).bytes) ⟨1, true⟩
          = .ok merged := by
  have first : (listed "A" 1).isComplete = true := by decide +kernel
  have second : (listed "B" 2).isComplete = true := by decide +kernel
  obtain ⟨merged, front, back, hm, complete, hfront, hback, decoded⟩ :=
    Record.merge_complete schema_built (conforms_listed "A" 1) (conforms_listed "B" 2) rfl first
      second
  obtain rfl := Except.ok.inj ((Record.encode_complete first).symm.trans hfront)
  obtain rfl := Except.ok.inj ((Record.encode_complete second).symm.trans hback)
  obtain rfl := Except.ok.inj hm
  exact ⟨first, second, _, rfl, complete, rfl, decoded (by decide +kernel) (by decide +kernel) 1
    (by decide) (by decide)⟩

end AddressBook

end TagWire
