set_option autoImplicit false

namespace TieredVM.Text

def bytes (text : String) : List UInt8 := text.toUTF8.data.toList

end TieredVM.Text
