import TieredVM.Text.Bytes
set_option autoImplicit false

namespace TieredVM.Text

def decimal (value : Int64) : List UInt8 := bytes (toString value)

end TieredVM.Text
