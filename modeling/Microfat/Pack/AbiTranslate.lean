/-
# Microfat.Pack.AbiTranslate — virtual addresses are translated exactly

The program headers are arbitrary bytes, cut by any entry size.  The segments of an accepted
table are in the file and their addresses do not wrap, and neither does any arithmetic on the
way (`parseABIProgramHeaders_traps`); an address that one segment covers, with room for the
range, is translated, and no other is (`translateVaddr_ends`).
-/
import Microfat.Pack.AbiBounds

namespace Microfat.Pack

open Theory

set_option autoImplicit false

/-- **Virtual address translation is exact.**  The segments are those of type PT_LOAD in the
table, and `Mapped` is the whole condition: one segment alone covers the address, it holds
the range, and the offset is the segment's plus the distance into it. -/
theorem translateVaddr_exact (phTable : Bytes) (table : phTable.length ≤ maxInt64)
    (ePhnum ePhentsize fileSize : UInt64) (order : ByteOrder) :
    parseABIProgramHeaders phTable ePhnum.toNat ePhentsize.toNat fileSize.toNat order ≠
      .error (.trap .wrap) ∧
    ∀ found, parseABIProgramHeaders phTable ePhnum.toNat ePhentsize.toNat fileSize.toNat order = .ok found →
      found.loads = segmentsOf 1 (headersFrom order phTable ePhentsize.toNat 0 ePhnum.toNat) ∧
      ∀ vaddr size : UInt64,
        (translateVaddr found.loads fileSize.toNat vaddr.toNat size.toNat).Safe ∧
        ∀ off, (translateVaddr found.loads fileSize.toNat vaddr.toNat size.toNat = .ok off ↔
            ∃ seg, Mapped found.loads vaddr.toNat size.toNat off seg) ∧
          (translateVaddr found.loads fileSize.toNat vaddr.toNat size.toNat = .ok off →
            off + size.toNat ≤ fileSize.toNat) := by
  obtain ⟨trapped, accepted⟩ := parseABIProgramHeaders_traps (· = .bounds) order table
    ePhentsize.toNat_lt fun excluded => absurd rfl excluded
  refine ⟨fun wrapped => Trap.noConfusion (trapped .wrap wrapped), fun found parsed => ?_⟩
  refine ⟨(accepted found parsed).loaded, fun vaddr size => ?_⟩
  have ok := (accepted found parsed).loads
  have ends := translateVaddr_ends fileSize.toNat_lt ok vaddr.toNat size.toNat
  refine ⟨ends.safe, fun off => ⟨⟨ends.returns, ?_⟩, fun returned => ?_⟩⟩
  · rintro ⟨seg, mapped⟩
    cases returned : translateVaddr found.loads fileSize.toNat vaddr.toNat size.toNat with
    | ok off' =>
      obtain ⟨seg', mapped'⟩ := ends.returns returned
      obtain rfl : seg = seg' := by simpa [mapped.only] using mapped'.only
      rw [mapped.place, mapped'.place]
    | error fault =>
      cases fault with
      | error e => exact absurd mapped (ends.raises returned off seg)
      | trap t => exact absurd returned (ends.safe t)
  · obtain ⟨seg, mapped⟩ := ends.returns returned
    exact mapped.inside ok

/-- A table with one loadable segment: 16 bytes at offset 0, loaded at 4096. -/
theorem translateVaddr_exact_sample :
    ∃ found, parseABIProgramHeaders
        ([1, 0, 0, 0] ++ List.replicate 13 0 ++ [16] ++ List.replicate 14 0 ++ [16] ++ List.replicate 7 0 ++
          [16] ++ List.replicate 15 0) 1 56 64 .littleEndian = .ok found ∧
      translateVaddr found.loads 64 4100 12 = .ok 4 := by
  have accepted : (parseABIProgramHeaders
      ([1, 0, 0, 0] ++ List.replicate 13 0 ++ [16] ++ List.replicate 14 0 ++ [16] ++ List.replicate 7 0 ++
        [16] ++ List.replicate 15 0) 1 56 64 .littleEndian).toOption.map (·.loads) =
      some [⟨0, 4096, 16, 16⟩] := by decide +kernel
  obtain ⟨found, returned, loads⟩ := Option.map_eq_some_iff.mp accepted
  have parsed := Eval.eq_ok_of_toOption returned
  refine ⟨found, parsed, (((translateVaddr_exact _ (by decide) 1 56 64 .littleEndian).2 found parsed).2 4100
    12).2 4 |>.1.mpr ⟨⟨0, 4096, 16, 16⟩, ?_⟩⟩
  rw [loads]
  exact ⟨by decide, rfl, by decide⟩

end Microfat.Pack
