set_option autoImplicit false

namespace TieredVM.Text

def hexByte (byte : UInt8) : String :=
  String.ofList ['0', 'x', Nat.digitChar (byte.toNat / 16), Nat.digitChar (byte.toNat % 16)]

end TieredVM.Text
