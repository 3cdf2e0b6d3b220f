import LacOS.Types

namespace lacos.keyboard

def reg_key_map : List UInt8 :=
  [0, 0] ++ chars ['1', '2', '3', '4', '5', '6', '7', '8', '9', '0', '-', '='] ++ [0x08, 0] ++
    chars ['q', 'w', 'e', 'r', 't', 'y', 'u', 'i', 'o', 'p', '[', ']'] ++ [0x0A, 0] ++
    chars ['a', 's', 'd', 'f', 'g', 'h', 'j', 'k', 'l', ';'] ++ [0x27, 0x60, 0, 0x5C] ++
    chars ['z', 'x', 'c', 'v', 'b', 'n', 'm', ',', '.', '/'] ++ [0] ++ chars ['*'] ++ [0] ++ chars [' '] ++
    [0, 0, 0, 0, 0, 0, 0, 0, 0, 0, 0, 0, 0, 0, 0, 0] ++ chars ['-'] ++ [0, 0, 0] ++ chars ['+']

def shift_key_map : List UInt8 :=
  [0, 0] ++ chars ['!', '@', '#', '$', '%', '^', '&', '*', '(', ')', '_', '+'] ++ [0x08, 0] ++
    chars ['Q', 'W', 'E', 'R', 'T', 'Y', 'U', 'I', 'O', 'P'] ++ [0x7B, 0x7D, 0x0A, 0] ++
    chars ['A', 'S', 'D', 'F', 'G', 'H', 'J', 'K', 'L', ':'] ++ [0x22] ++ chars ['~'] ++ [0] ++
    chars ['|', 'Z', 'X', 'C', 'V', 'B', 'N', 'M', '<', '>', '?'] ++ [0] ++ chars ['*'] ++ [0] ++ chars [' '] ++
    [0, 0, 0, 0, 0, 0, 0, 0, 0, 0, 0, 0, 0, 0, 0, 0] ++ chars ['_'] ++ [0, 0, 0] ++ chars ['+']

def caps_key_map : List UInt8 :=
  [0, 0] ++ chars ['1', '2', '3', '4', '5', '6', '7', '8', '9', '0', '-', '='] ++ [0x08, 0] ++
    chars ['Q', 'W', 'E', 'R', 'T', 'Y', 'U', 'I', 'O', 'P', '[', ']'] ++ [0x0A, 0] ++
    chars ['A', 'S', 'D', 'F', 'G', 'H', 'J', 'K', 'L', ';'] ++ [0x27, 0x60, 0, 0x5C] ++
    chars ['Z', 'X', 'C', 'V', 'B', 'N', 'M', ',', '.', '/'] ++ [0] ++ chars ['*'] ++ [0] ++ chars [' '] ++
    [0, 0, 0, 0, 0, 0, 0, 0, 0, 0, 0, 0, 0, 0, 0, 0] ++ chars ['_'] ++ [0, 0, 0] ++ chars ['+']

def caps_shift_key_map : List UInt8 :=
  [0, 0] ++ chars ['!', '@', '#', '$', '%', '^', '&', '*', '(', ')', '_', '+'] ++ [0x08, 0] ++
    chars ['q', 'w', 'e', 'r', 't', 'y', 'u', 'i', 'o', 'p'] ++ [0x7B, 0x7D, 0x0A, 0] ++
    chars ['a', 's', 'd', 'f', 'g', 'h', 'j', 'k', 'l', ':'] ++ [0x22] ++ chars ['~'] ++ [0] ++
    chars ['|', 'z', 'x', 'c', 'v', 'b', 'n', 'm', '<', '>', '?'] ++ [0] ++ chars ['*'] ++ [0] ++ chars [' '] ++
    [0, 0, 0, 0, 0, 0, 0, 0, 0, 0, 0, 0, 0, 0, 0, 0] ++ chars ['_'] ++ [0, 0, 0] ++ chars ['+']

end lacos.keyboard
