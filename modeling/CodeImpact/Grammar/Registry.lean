import CodeImpact.Grammar.Java
import CodeImpact.Grammar.Python
import CodeImpact.Grammar.Rust
import CodeImpact.Grammar.TypeScript

/-!
# The grammar of each language
-/

namespace CodeImpact

def Language.grammar : Language → Grammar
  | .rust => .rust
  | .python => .python
  | .java => .java
  | .javascript => .javascript
  | .typescript => .typescript
  | .tsx => .tsx

end CodeImpact
