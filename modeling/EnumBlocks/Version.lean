/-!
The name and the version of the editor, for those who ask for nothing else.
-/

namespace EnumBlocks

def version : String := "Enum Editor v1.0.0"

end EnumBlocks
